import BbbXinu.Invariant.SemaphoreMoves
import Mathlib.Logic.Relation

/-!
# States and state times while the kernel serves a call

Whatever runs inside a call, a process that is neither running nor ready keeps
its state unless it is woken, and the state of a live process changes only when
it has just been recorded.
-/

namespace BbbXinu

open LinkedLists KeyedLists

/-- {lit}`record_cpuqdata` does something. -/
def Xinu.recording (s : Xinu) : Prop :=
  s.envtab EV_CPUQDATA ≠ 0 ∨ s.envtab EV_SCHEDULER = QTYPE_SJF

instance (s : Xinu) : Decidable s.recording := inferInstanceAs (Decidable (_ ∨ _))

/-!
## Changes with respect to time
-/

/-- The entries agree in state times. -/
structure SameStamps (e e' : Procent) : Prop where
  timestatein : e'.timestatein = e.timestatein
  statetimes : e'.statetimes = e.statetimes

/-- The states agree in all that a record reads or writes. -/
structure SameTimes (s s' : Xinu) : Prop where
  stamps : ∀ p, SameStamps (s.proctab p) (s'.proctab p)
  prstate : ∀ p, (s'.proctab p).prstate = (s.proctab p).prstate
  stateTimes : s'.stateTimes = s.stateTimes
  envtab : s'.envtab = s.envtab
  clktime : s'.clktime = s.clktime
  count1000 : s'.count1000 = s.count1000
  clktimems : s'.clktimems = s.clktimems

/-- A record, a change that has nothing to do with times, or a new state for a
live process whose time in the old one is recorded. -/
inductive TimeStep (s : Xinu) : Xinu → Prop where
  | record (pid : Int) : TimeStep s (s.recordCpuqdata pid)
  | same {s' : Xinu} (h : SameTimes s s') : TimeStep s s'
  | move {pid : Int} {f : Procent → Procent} (hlive : (s.proctab pid).prstate ≠ .free)
      (hstamp : s.recording → (s.proctab pid).timestatein = s.now)
      (hf : SameStamps (s.proctab pid) (f (s.proctab pid))) : TimeStep s (s.setProc pid f)

/-- Any number of such changes. -/
def KeepsTimes : Xinu → Xinu → Prop := Relation.ReflTransGen TimeStep

section

variable {s s' s'' : Xinu} {pid : Int}

theorem SameStamps.refl (e : Procent) : SameStamps e e := ⟨rfl, rfl⟩

theorem SameTimes.refl (s : Xinu) : SameTimes s s :=
  ⟨fun _ => .refl _, fun _ => rfl, rfl, rfl, rfl, rfl, rfl⟩

theorem SameTimes.trans (h : SameTimes s s') (h' : SameTimes s' s'') : SameTimes s s'' where
  stamps := fun p => ⟨(h'.stamps p).timestatein.trans (h.stamps p).timestatein,
    (h'.stamps p).statetimes.trans (h.stamps p).statetimes⟩
  prstate := fun p => (h'.prstate p).trans (h.prstate p)
  stateTimes := h'.stateTimes.trans h.stateTimes
  envtab := h'.envtab.trans h.envtab
  clktime := h'.clktime.trans h.clktime
  count1000 := h'.count1000.trans h.count1000
  clktimems := h'.clktimems.trans h.clktimems

theorem KeepsTimes.refl (s : Xinu) : KeepsTimes s s := Relation.ReflTransGen.refl

theorem KeepsTimes.trans (h : KeepsTimes s s') (h' : KeepsTimes s' s'') : KeepsTimes s s'' :=
  Relation.ReflTransGen.trans h h'

theorem TimeStep.keeps (h : TimeStep s s') : KeepsTimes s s' := Relation.ReflTransGen.single h

theorem SameTimes.keeps (h : SameTimes s s') : KeepsTimes s s' := (TimeStep.same h).keeps

theorem keeps_record (s : Xinu) (pid : Int) : KeepsTimes s (s.recordCpuqdata pid) :=
  (TimeStep.record pid).keeps

theorem sameTimes_setProc (s : Xinu) (pid : Int) {f : Procent → Procent}
    (hstamps : ∀ e, SameStamps e (f e)) (hstate : ∀ e, (f e).prstate = e.prstate) :
    SameTimes s (s.setProc pid f) := by
  refine ⟨?_, ?_, rfl, rfl, rfl, rfl, rfl⟩
  · intro p
    show SameStamps _ (upd s.proctab pid (f (s.proctab pid)) p)
    rw [upd_apply]
    split
    · rename_i hp
      rw [hp]
      exact hstamps _
    · exact .refl _
  · intro p
    show (upd s.proctab pid (f (s.proctab pid)) p).prstate = _
    rw [upd_apply]
    split
    · rename_i hp
      rw [hp]
      exact hstate _
    · rfl

theorem sameTimes_setQueuetab (s : Xinu) (t : Int → Qentry) :
    SameTimes s (s.setQueuetab t) :=
  ⟨fun _ => .refl _, fun _ => rfl, rfl, rfl, rfl, rfl, rfl⟩

theorem sameTimes_setSem (s : Xinu) (i : Int) (f : Sentry → Sentry) :
    SameTimes s (s.setSem i f) :=
  ⟨fun _ => .refl _, fun _ => rfl, rfl, rfl, rfl, rfl, rfl⟩

theorem sameTimes_setDefer (s : Xinu) (d : Defer) : SameTimes s (s.setDefer d) :=
  ⟨fun _ => .refl _, fun _ => rfl, rfl, rfl, rfl, rfl, rfl⟩

theorem sameTimes_setPreempt (s : Xinu) (n : Nat) : SameTimes s (s.setPreempt n) :=
  ⟨fun _ => .refl _, fun _ => rfl, rfl, rfl, rfl, rfl, rfl⟩

theorem sameTimes_setCurrpid (s : Xinu) (pid : Int) : SameTimes s (s.setCurrpid pid) :=
  ⟨fun _ => .refl _, fun _ => rfl, rfl, rfl, rfl, rfl, rfl⟩

theorem sameTimes_setReadycount (s : Xinu) (n : Nat) : SameTimes s (s.setReadycount n) :=
  ⟨fun _ => .refl _, fun _ => rfl, rfl, rfl, rfl, rfl, rfl⟩

theorem sameTimes_push (s : Xinu) (f : Frame) : SameTimes s (s.push f) :=
  ⟨fun _ => .refl _, fun _ => rfl, rfl, rfl, rfl, rfl, rfl⟩

theorem sameTimes_ret (s : Xinu) (v : Int) : SameTimes s (s.ret v) :=
  ⟨fun _ => .refl _, fun _ => rfl, rfl, rfl, rfl, rfl, rfl⟩

theorem sameTimes_setMem (s : Xinu) (m : Mem) : SameTimes s (s.setMem m) :=
  ⟨fun _ => .refl _, fun _ => rfl, rfl, rfl, rfl, rfl, rfl⟩

theorem sameTimes_setPrcount (s : Xinu) (n : Int) : SameTimes s (s.setPrcount n) :=
  ⟨fun _ => .refl _, fun _ => rfl, rfl, rfl, rfl, rfl, rfl⟩

theorem sameTimes_setPrprio (s : Xinu) (pid prio : Int) :
    SameTimes s (s.setProc pid fun e => { e with prprio := prio }) :=
  sameTimes_setProc s pid (fun _ => ⟨rfl, rfl⟩) fun _ => rfl

/-- A record sets the stamp of its process. -/
theorem recordCpuqdata_stamp (hon : s.recording) (hgood : ¬ s.isbadpid pid) :
    ((s.recordCpuqdata pid).proctab pid).timestatein = s.now := by
  unfold Xinu.recording at hon
  unfold Xinu.recordCpuqdata
  rw [if_pos hon, if_neg hgood]
  dsimp only [Xinu.setProc]
  rw [upd_apply, if_pos rfl]

theorem Kept.recording (h : Kept s s') : s'.recording ↔ s.recording := by
  unfold Xinu.recording
  rw [h.envtab]

theorem Kept.now (h : Kept s s') : s'.now = s.now := by
  unfold Xinu.now
  rw [h.clktime, h.count1000, h.clktimems]

/-- A process is recorded and gets a new state. -/
theorem keeps_settle {f : Procent → Procent} (hgood : ¬ s.isbadpid pid)
    (hf : ∀ e, SameStamps e (f e)) : KeepsTimes s ((s.recordCpuqdata pid).setProc pid f) := by
  have hkept := kept_recordCpuqdata s pid
  have hlive : ((s.recordCpuqdata pid).proctab pid).prstate ≠ .free := by
    rw [(quiet_recordCpuqdata s pid).prstate]
    exact (Xinu.not_isbadpid_iff.mp hgood).2
  have hstamp : (s.recordCpuqdata pid).recording →
      ((s.recordCpuqdata pid).proctab pid).timestatein = (s.recordCpuqdata pid).now := by
    intro hon
    rw [hkept.now]
    exact recordCpuqdata_stamp (hkept.recording.mp hon) hgood
  exact (keeps_record s pid).trans (TimeStep.move hlive hstamp (hf _)).keeps

theorem keeps_setprio (s : Xinu) (pid : Int) : KeepsTimes s (s.setprio pid).2 := by
  unfold Xinu.setprio
  split
  · exact .refl s
  · split
    · exact .refl s
    · split
      · exact keeps_record s pid
      · split
        · exact SameTimes.keeps ⟨fun _ => .refl _, fun _ => rfl, rfl, rfl, rfl, rfl, rfl⟩
        · split
          · exact .refl s
          · exact .refl s

end

/-!
## Serving
-/

/-- Between the two states nobody but the given processes was woken, and nobody
went to a state other than running and ready but as given. -/
def Moved (woken : Int → Prop) (stops : Int → PrState → Prop) (s s' : Xinu) : Prop :=
  ∀ p, (s'.proctab p).prstate = (s.proctab p).prstate ∨
    (s.Alive p ∨ woken p) ∧ (s'.Alive p ∨ stops p (s'.proctab p).prstate)

/-- Processes moved so, and the times were kept. -/
structure Serves (woken : Int → Prop) (stops : Int → PrState → Prop) (s s' : Xinu) :
    Prop where
  moved : Moved woken stops s s'
  keeps : KeepsTimes s s'

section

variable {w : Watch} {g : View} {x q : Int} {s s' s'' : Xinu} {woken woken' : Int → Prop}
  {stops stops' : Int → PrState → Prop} {p : Int}

theorem Moved.refl (s : Xinu) : Moved woken stops s s := fun _ => Or.inl rfl

theorem Moved.trans (h : Moved woken stops s s') (h' : Moved woken stops s' s'') :
    Moved woken stops s s'' := by
  intro p
  rcases h p with h1 | ⟨hfrom, hto⟩
  · rcases h' p with h2 | ⟨hfrom, hto⟩
    · exact Or.inl (h2.trans h1)
    · unfold Xinu.Alive at hfrom
      rw [h1] at hfrom
      exact Or.inr ⟨hfrom, hto⟩
  · rcases h' p with h2 | ⟨_, hto'⟩
    · unfold Xinu.Alive at hto
      rw [← h2] at hto
      exact Or.inr ⟨hfrom, hto⟩
    · exact Or.inr ⟨hfrom, hto'⟩

theorem moved_same (h : ∀ p, (s'.proctab p).prstate = (s.proctab p).prstate) :
    Moved woken stops s s' := fun p => Or.inl (h p)

/-- One process gets a new state. -/
theorem moved_setProc {f : Procent → Procent} (hfrom : s.Alive p ∨ woken p)
    (hto : ((f (s.proctab p)).prstate = .ready ∨ (f (s.proctab p)).prstate = .curr) ∨
      stops p (f (s.proctab p)).prstate) : Moved woken stops s (s.setProc p f) := by
  intro r
  by_cases hr : r = p
  · right
    rw [hr]
    unfold Xinu.Alive
    rw [setProc_self]
    exact ⟨hfrom, hto⟩
  · left
    rw [setProc_of_ne _ _ hr]

/-- Who is neither running nor ready, and is not woken, keeps its state. -/
theorem Moved.rest (h : Moved woken stops s s') (hp : ¬ s.Alive p) (hw : ¬ woken p) :
    (s'.proctab p).prstate = (s.proctab p).prstate := by
  rcases h p with hsame | ⟨halive | hwoken, _⟩
  · exact hsame
  · exact absurd halive hp
  · exact absurd hwoken hw

/-- Who is in another state afterwards either kept it or stopped in it. -/
theorem Moved.entered (h : Moved woken stops s s') (hp : ¬ s'.Alive p) :
    (s'.proctab p).prstate = (s.proctab p).prstate ∨ stops p (s'.proctab p).prstate := by
  rcases h p with hsame | ⟨_, halive | hstop⟩
  · exact Or.inl hsame
  · exact absurd halive hp
  · exact Or.inr hstop

theorem Serves.refl (s : Xinu) : Serves woken stops s s := ⟨.refl s, .refl s⟩

theorem Serves.trans (h : Serves woken stops s s') (h' : Serves woken stops s' s'') :
    Serves woken stops s s'' := ⟨h.moved.trans h'.moved, h.keeps.trans h'.keeps⟩

theorem SameTimes.serves (h : SameTimes s s') : Serves woken stops s s' :=
  ⟨moved_same h.prstate, h.keeps⟩

theorem serves_record (s : Xinu) (pid : Int) :
    Serves woken stops s (s.recordCpuqdata pid) :=
  ⟨moved_same (quiet_recordCpuqdata s pid).prstate, keeps_record s pid⟩

theorem serves_setprio (s : Xinu) (pid : Int) : Serves woken stops s (s.setprio pid).2 :=
  ⟨moved_same (quiet_setprio s pid).prstate, keeps_setprio s pid⟩

/-- A process that is woken, running or ready is recorded and gets a new state. -/
theorem serves_settle {pid : Int} {f : Procent → Procent} (hgood : ¬ s.isbadpid pid)
    (hpid : s.Alive pid ∨ woken pid)
    (hto : ∀ e, ((f e).prstate = .ready ∨ (f e).prstate = .curr) ∨ stops pid (f e).prstate)
    (hf : ∀ e, SameStamps e (f e)) :
    Serves woken stops s ((s.recordCpuqdata pid).setProc pid f) where
  moved := by
    apply Moved.trans (moved_same (quiet_recordCpuqdata s pid).prstate)
    apply moved_setProc _ (hto _)
    unfold Xinu.Alive
    rw [(quiet_recordCpuqdata s pid).prstate]
    exact hpid
  keeps := keeps_settle hgood hf

/-- The first ready process gets the processor. -/
theorem dispatch_serves (hI : Inv w g EMPTY s)
    (hcur : (s.proctab s.currpid).prstate ≠ .curr) : Serves woken stops s s.dispatch := by
  cases hL : lists s.queuetab readylist with
  | nil => exact absurd hL (hI.readylist_ne_nil hcur)
  | cons pid l =>
      have hmem : pid ∈ lists s.queuetab readylist := by
        rw [hL]
        exact List.mem_cons_self
      rcases Xinu.dequeue_cons hI.queues isQueue_readylist hL with ⟨t, ht, _, _⟩
      unfold Xinu.dispatch
      rw [ht]
      dsimp only
      have h₁ : SameTimes s (((s.setQueuetab t).setCurrpid pid).setReadycount
          (uint16 (((s.setQueuetab t).setCurrpid pid).readycount - 1))) :=
        ((sameTimes_setQueuetab s t).trans (sameTimes_setCurrpid _ _)).trans
          (sameTimes_setReadycount _ _)
      have hcp : (((s.setQueuetab t).setCurrpid pid).setReadycount
          (uint16 (((s.setQueuetab t).setCurrpid pid).readycount - 1))).currpid = pid := rfl
      generalize (((s.setQueuetab t).setCurrpid pid).setReadycount
        (uint16 (((s.setQueuetab t).setCurrpid pid).readycount - 1))) = s₁ at h₁ hcp ⊢
      have hready : (s₁.proctab pid).prstate = .ready :=
        (h₁.prstate pid).trans (hI.ready_of_mem hmem)
      have hgood : ¬ s₁.isbadpid pid := by
        rw [Xinu.not_isbadpid_iff, hready]
        exact ⟨(Xinu.not_isbadpid_iff.mp (hI.good_of_mem hmem)).1, by decide⟩
      have hrecord : (s₁.recordCpuqdata pid).currpid = pid :=
        (quiet_recordCpuqdata s₁ pid).currpid.trans hcp
      rw [hcp, hrecord]
      apply Serves.trans _ (sameTimes_setPreempt _ _).serves
      apply h₁.serves.trans
      exact serves_settle hgood (Or.inl (Or.inl hready)) (fun _ => Or.inl (Or.inr rfl))
        fun _ => ⟨rfl, rfl⟩

/-- {lit}`resched` wakes nobody. -/
theorem resched_serves (hI : Inv w g EMPTY s) : Serves woken stops s s.resched := by
  unfold Xinu.resched
  split
  · exact (sameTimes_setDefer s _).serves
  · dsimp only
    split
    · rename_i hcurr
      have hbad : ¬ s.isbadpid s.currpid := by
        rw [Xinu.not_isbadpid_iff, hcurr]
        exact ⟨hI.valid_curr, by decide⟩
      have hnonneg := setprio_nonneg hbad
      have hq := quiet_setprio s s.currpid
      have hserves : Serves woken stops s (s.setprio s.currpid).2 := serves_setprio s s.currpid
      generalize (s.setprio s.currpid).1 = prio at hnonneg ⊢
      have hI₀ := hI.quiet hq
      have hcurr₀ := (hq.prstate s.currpid).trans hcurr
      have hcp₀ := hq.currpid
      generalize (s.setprio s.currpid).2 = s₀ at hI₀ hcurr₀ hcp₀ hserves ⊢
      generalize s.currpid = old at hcurr₀ hcp₀ ⊢
      have hI₁ : Inv w g old (s₀.setProc old fun e => { e with prprio := prio }) := by
        apply (hI₀.open_hole (home_curr hcurr₀)).setProc Iff.rfl
        · exact fun _ => hcp₀.symm
        · intro q hhome
          rw [home_curr (by exact hcurr₀)] at hhome
          cases hhome
        · intro hwait
          rw [hcurr₀] at hwait
          cases hwait
        · exact fun _ => Or.inl hcurr₀
      have hprio := sameTimes_setPrprio s₀ old prio
      have hself := setProc_self s₀ old fun e => { e with prprio := prio }
      have hserves₁ := hserves.trans hprio.serves
      have hcp₁ : (s₀.setProc old fun e => { e with prprio := prio }).currpid = old := hcp₀
      generalize (s₀.setProc old fun e => { e with prprio := prio }) = s₁
        at hI₁ hself hcp₁ hserves₁ ⊢
      have hcurr₁ : (s₁.proctab old).prstate = .curr := by
        rw [hself]
        exact hcurr₀
      split
      · exact hserves₁
      · have hq₂ := quiet_recordCpuqdata s₁ old
        have hgood : ¬ s₁.isbadpid old := by
          rw [Xinu.not_isbadpid_iff, hcurr₁]
          exact ⟨hcp₁ ▸ hI₁.valid_curr, by decide⟩
        have hsettle : Serves woken stops s₁ ((s₁.recordCpuqdata old).setProc old fun e =>
            { e with prstate := .ready }) :=
          serves_settle hgood (Or.inl (Or.inr hcurr₁)) (fun _ => Or.inl (Or.inl rfl))
            fun _ => ⟨rfl, rfl⟩
        have hlive : ((s₁.recordCpuqdata old).proctab old).prstate ≠ .free := by
          rw [hq₂.prstate, hcurr₁]
          exact fun h => by cases h
        have hpos : 0 ≤ ((s₁.recordCpuqdata old).proctab old).prprio := by
          rw [hq₂.prprio, hself]
          exact hnonneg
        rcases requeue_inv (hI₁.quiet hq₂) (hq₂.currpid.trans hcp₁) hlive hpos with
          ⟨t, ht, hInv, hno⟩
        rw [ht]
        apply Serves.trans _ (dispatch_serves hInv hno)
        apply hserves₁.trans
        apply hsettle.trans
        exact ((sameTimes_setReadycount _ _).trans (sameTimes_setQueuetab _ _)).serves
    · rename_i hcurr
      exact dispatch_serves hI hcurr

/-- {lit}`ready` wakes its process. -/
theorem ready_serves (hI : Inv w g x s) (hcurr : (s.proctab s.currpid).prstate = .curr)
    (hne : s.currpid ≠ x) (hx : ¬ s.isbadpid x) (hw : woken x) :
    Serves woken stops s (s.ready x) := by
  rcases ready_inv hI hcurr hne hx with ⟨s₂, t, hs₂, hready, hInv, _⟩
  rw [hready]
  apply Serves.trans _ (resched_serves hInv)
  apply Serves.trans _ (sameTimes_setQueuetab _ _).serves
  apply Serves.trans _ (sameTimes_setPrprio _ _ _).serves
  apply Serves.trans _ (serves_setprio _ _)
  rw [hs₂]
  apply Serves.trans _ (sameTimes_setReadycount _ _).serves
  exact serves_settle hx (Or.inr hw) (fun _ => Or.inl (Or.inl rfl)) fun _ => ⟨rfl, rfl⟩

theorem ready_empty_serves : Serves woken stops s (s.ready EMPTY) := by
  rw [ready_bad (isbadpid_empty s)]
  exact .refl s

/-- A process that is ready to be released from a queue in the given table. -/
theorem release_inv {pid : Int} {l : List Int} {t : Int → Qentry} (hO : Ok w g s)
    (hL : lists s.queuetab q = pid :: l) (hr : q ≠ readylist)
    (hQ : Queues t (upd (lists s.queuetab) q l))
    (hk : ∀ i, (t i).qkey = (s.queuetab i).qkey) :
    Inv w.undelay (g.setList q l) pid (s.setQueuetab t) ∧ s.currpid ≠ pid ∧
      ¬ (s.setQueuetab t).isbadpid pid := by
  have hp : pid ∈ lists s.queuetab q := by
    rw [hL]
    exact List.mem_cons_self
  have herase : (lists s.queuetab q).erase pid = l := by rw [hL, List.erase_cons_head]
  have hhome := ((hO.inv.mem_iff q pid).mp hp).1
  constructor
  · apply hO.inv.undelay.remove hp (fun _ => hr) (fun h => absurd h id) _ hk
    · rw [herase]
      exact hO.inv.lists_upd
    · rw [herase]
      exact hQ
  · constructor
    · intro he
      rw [← he, home_curr hO.curr] at hhome
      cases hhome
    · exact hO.inv.good_of_mem hp

theorem readyDequeue_serves (hO : Ok w g s) (hq : IsQueue q) (hr : q ≠ readylist)
    (hw : ∀ p ∈ (g.lists q).take 1, woken p) : Serves woken stops s (s.readyDequeue q) := by
  have heq := hO.inv.lists_eq q hr
  unfold Xinu.readyDequeue
  cases hL : g.lists q with
  | nil =>
      rw [Xinu.dequeue_nil hO.inv.queues hq (heq.trans hL)]
      exact ready_empty_serves
  | cons pid l =>
      rcases Xinu.dequeue_cons hO.inv.queues hq (heq.trans hL) with ⟨t, ht, hQ, hk⟩
      rcases release_inv hO (heq.trans hL) hr hQ hk with ⟨hI, hne, hgood⟩
      have hpid : woken pid := hw pid (by rw [hL]; simp)
      rw [ht]
      exact (sameTimes_setQueuetab s t).serves.trans
        (ready_serves hI hO.curr hne hgood hpid)

theorem readyGetfirst_serves (hO : Ok w g s) (hq : IsQueue q) (hr : q ≠ readylist)
    (hw : ∀ p ∈ (g.lists q).take 1, woken p) :
    Serves woken stops s ((s.getfirst q).2.ready (s.getfirst q).1) := by
  have heq := hO.inv.lists_eq q hr
  cases hL : g.lists q with
  | nil =>
      rw [Xinu.getfirst_nil hO.inv.queues hq (heq.trans hL)]
      exact ready_empty_serves
  | cons pid l =>
      rcases Xinu.getfirst_cons hO.inv.queues hq (heq.trans hL) with ⟨t, ht, hQ, hk⟩
      rcases release_inv hO (heq.trans hL) hr hQ hk with ⟨hI, hne, hgood⟩
      have hpid : woken pid := hw pid (by rw [hL]; simp)
      rw [ht]
      exact (sameTimes_setQueuetab s t).serves.trans
        (ready_serves hI hO.curr hne hgood hpid)

theorem deferStart_serves : Serves woken stops s (s.reschedCntl DEFER_START) :=
  (sameTimes_setDefer s _).serves

theorem deferStop_serves (hO : Ok w g s) : Serves woken stops s (s.reschedCntl DEFER_STOP) := by
  rw [reschedCntl_stop]
  unfold Xinu.deferStop
  split
  · exact .refl s
  · dsimp only
    split
    · exact (sameTimes_setDefer s _).serves.trans (resched_serves (hO.inv.setDefer _))
    · exact (sameTimes_setDefer s _).serves

/-!
## Loops
-/

theorem signalnLoop_serves {sem : Int} (hgood : ¬ isbadsem sem) (n : Nat) (hO : Ok w g s)
    (hw : ∀ p ∈ g.lists (semq sem), woken p) :
    Serves woken stops s (Xinu.signalnLoop sem n s) := by
  induction n generalizing g s with
  | zero => exact .refl s
  | succ n ih =>
      have hO₁ := hO.quiet (quiet_setSem s sem
        (f := fun e => { e with scount := int32 (e.scount + 1) }) fun _ => rfl)
      have hset : Serves woken stops s
          (s.setSem sem fun e => { e with scount := int32 (e.scount + 1) }) :=
        (sameTimes_setSem s sem _).serves
      have hsq := hO₁.inv.squeue sem hgood
      unfold Xinu.signalnLoop
      dsimp only
      split
      · rw [hsq]
        have hok := readyDequeue_ok hO₁ (isQueue_semq hgood) (semq_ne_readylist hgood)
          (semq_ne_sleepq hgood)
        have hserves : Serves woken stops _ _ := readyDequeue_serves hO₁ (isQueue_semq hgood)
          (semq_ne_readylist hgood) fun p hp => hw p (List.mem_of_mem_take hp)
        apply (hset.trans hserves).trans
        apply ih hok
        intro p hp
        unfold View.pop at hp
        rw [View.setList_at] at hp
        exact hw p (List.mem_of_mem_tail hp)
      · exact hset.trans (ih hO₁ hw)

theorem semdeleteLoop_serves {sem : Int} (hgood : ¬ isbadsem sem) (n : Nat) (hO : Ok w g s)
    (hw : ∀ p ∈ g.lists (semq sem), woken p) :
    Serves woken stops s (Xinu.semdeleteLoop sem n s) := by
  induction n generalizing g s with
  | zero => exact .refl s
  | succ n ih =>
      have hO₁ := hO.quiet (quiet_setSem s sem
        (f := fun e => { e with scount := e.scount + 1 }) fun _ => rfl)
      have hset : Serves woken stops s (s.setSem sem fun e => { e with scount := e.scount + 1 }) :=
        (sameTimes_setSem s sem _).serves
      have hsq := hO₁.inv.squeue sem hgood
      have hok := readyGetfirst_ok hO₁ (isQueue_semq hgood) (semq_ne_readylist hgood)
        (semq_ne_sleepq hgood)
      have hserves : Serves woken stops _ _ := readyGetfirst_serves hO₁ (isQueue_semq hgood)
        (semq_ne_readylist hgood) fun p hp => hw p (List.mem_of_mem_take hp)
      unfold Xinu.semdeleteLoop
      dsimp only
      rw [hsq]
      apply (hset.trans hserves).trans
      apply ih hok
      intro p hp
      unfold View.pop at hp
      rw [View.setList_at] at hp
      exact hw p (List.mem_of_mem_tail hp)

theorem readyAll_serves (hq : IsQueue q) (hr : q ≠ readylist) (hs : q ≠ sleepq) (n : Nat)
    (hO : Ok w g s) (hw : ∀ p ∈ g.lists q, woken p) :
    Serves woken stops s (Xinu.readyAll q n s) := by
  induction n generalizing g s with
  | zero => exact .refl s
  | succ n ih =>
      have hok := readyGetfirst_ok hO hq hr hs
      have hserves : Serves woken stops _ _ := readyGetfirst_serves hO hq hr fun p hp =>
        hw p (List.mem_of_mem_take hp)
      unfold Xinu.readyAll
      dsimp only
      split
      · rename_i hempty
        rw [hempty, ready_bad (isbadpid_empty _)] at hserves
        exact hserves
      · apply hserves.trans
        apply ih hok
        intro p hp
        unfold View.pop at hp
        rw [View.setList_at] at hp
        exact hw p (List.mem_of_mem_tail hp)

theorem wakeupLoop_serves (n : Nat) (hO : Ok w g s)
    (hw : ∀ p ∈ g.lists sleepq, woken p) : Serves woken stops s (Xinu.wakeupLoop n s) := by
  induction n generalizing g s with
  | zero => exact .refl s
  | succ n ih =>
      unfold Xinu.wakeupLoop
      split
      · rename_i hcond
        have hserves : Serves woken stops s (s.readyDequeue sleepq) :=
          readyDequeue_serves hO isQueue_sleepq (by decide) fun p hp =>
            hw p (List.mem_of_mem_take hp)
        apply hserves.trans
        cases hL : g.lists sleepq with
        | nil =>
            have h1 := (Xinu.nonempty_iff hO.inv.queues isQueue_sleepq).mp hcond.1
            exact absurd (hO.inv.lists_sleepq.trans hL) h1
        | cons p l =>
            apply ih (wakeFirst_ok hO hL hcond.2).1
            intro r hr
            rw [View.setList_at] at hr
            apply hw
            rw [hL]
            exact List.mem_cons_of_mem p hr
      · exact .refl s

theorem clkPreempt_serves (hO : Ok w g s) : Serves woken stops s s.clkPreempt := by
  have hO₁ := hO.quiet (quiet_setPreempt s (uint32 (s.preempt - 1)))
  unfold Xinu.clkPreempt
  dsimp only
  split
  · apply (sameTimes_setPreempt s _).serves.trans
    apply (sameTimes_setPreempt _ _).serves.trans
    exact resched_serves (hO₁.quiet (quiet_setPreempt _ QUANTUM)).inv
  · exact (sameTimes_setPreempt s _).serves

end

end BbbXinu
