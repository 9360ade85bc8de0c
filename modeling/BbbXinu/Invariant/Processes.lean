import BbbXinu.Invariant.Clock
import BbbXinu.Invariant.Views

/-!
# Process calls keep the invariant

{lit}`create`, {lit}`resume`, {lit}`suspend` and {lit}`chprio`.  A suspended
ready process leaves the ready list, but {lit}`readycount` stays as it is.
-/

namespace BbbXinu

open LinkedLists KeyedLists

section

variable {w : Watch} {g : View} {x q : Int} {s : Xinu}

/-!
## Processes that belong on no queue
-/

/-- The entry of a process that is neither running nor on a queue can change
within these limits. -/
theorem setProcOff_ok {f : Procent → Procent} (hO : Ok w g s)
    (hx : home (s.proctab x) = none) (hne : s.currpid ≠ x)
    (hhome : home (f (s.proctab x)) = none)
    (hcurr : (f (s.proctab x)).prstate ≠ .curr) :
    Ok w (g.setLive x ((f (s.proctab x)).prstate ≠ .free)) (s.setProc x f) := by
  have hnull : x ≠ NULLPROC := by
    rintro rfl
    rcases hO.inv.null_state with h | h
    · exact hne (hO.inv.curr_unique _ h).symm
    · rw [home_ready h] at hx
      cases hx
  have hI : Inv w (g.setLive x ((f (s.proctab x)).prstate ≠ .free)) x (s.setProc x f) := by
    apply (hO.inv.open_hole hx).setProcLive
    · exact fun h => absurd h hcurr
    · intro r hr
      rw [hhome] at hr
      cases hr
    · intro h
      rw [home_wait h] at hhome
      cases hhome
    · exact fun h => absurd h hnull
  have hself := setProc_self s x f
  refine ⟨hI.close_hole ?_, ?_, ?_⟩
  · rw [hself]
    exact hhome
  · show ((s.setProc x f).proctab s.currpid).prstate = .curr
    rw [setProc_of_ne s f hne]
    exact hO.curr
  · intro hw ht p hp
    have hpx : p ≠ x := by
      rintro rfl
      exact hO.inv.off_of_home hx readylist hp
    show ((s.setProc x f).proctab p).prprio ≤ ((s.setProc x f).proctab s.currpid).prprio
    rw [setProc_of_ne s f hpx, setProc_of_ne s f hne]
    exact hO.top hw ht p hp

theorem Ok.curr_ne (hO : Ok w g s) {p : Int} (h : (s.proctab p).prstate ≠ .curr) :
    s.currpid ≠ p := by
  rintro rfl
  exact h hO.curr

theorem newpidLoop_spec (n : Nat) (s : Xinu) :
    ∃ next, (Xinu.newpidLoop n s).2 = s.setNextpid next ∧
      ((Xinu.newpidLoop n s).1 ≠ SYSERR → ValidPid (Xinu.newpidLoop n s).1 ∧
        (s.proctab (Xinu.newpidLoop n s).1).prstate = .free) := by
  induction n generalizing s with
  | zero => exact ⟨s.nextpid, rfl, fun h => absurd rfl h⟩
  | succ n ih =>
      unfold Xinu.newpidLoop
      dsimp only
      split
      · rename_i hfree
        refine ⟨_, rfl, fun _ => ⟨?_, hfree⟩⟩
        unfold ValidPid
        rw [nproc_val]
        omega
      · rcases ih (s.setNextpid (s.nextpid % NPROC + 1)) with ⟨next, h1, h2⟩
        exact ⟨next, h1, h2⟩

theorem create_ok (hO : Ok w g s) (ssize : Nat) (priority : Int) :
    ∃ g', (g' = g ∨ ∃ pid, ¬ g.live pid ∧ ValidPid pid ∧
        g' = (g.setLive pid True).setFrames pid []) ∧
      Ok w g' (s.create ssize priority) := by
  unfold Xinu.create
  dsimp only
  generalize s.mem.getstk _ _ = stk
  have hO₁ : Ok w g (s.setMem stk.2) := hO.quiet (quiet_setMem s stk.2)
  cases stk.1 with
  | none => exact ⟨g, Or.inl rfl, hO₁.ret _⟩
  | some saddr =>
      dsimp only
      rcases newpidLoop_spec NPROC.toNat (s.setMem stk.2) with ⟨next, hnext, hpid⟩
      unfold Xinu.newpid
      rw [hnext]
      generalize (Xinu.newpidLoop NPROC.toNat (s.setMem stk.2)).1 = pid at hpid ⊢
      have hO₂ : Ok w g ((s.setMem stk.2).setNextpid next) :=
        hO₁.quiet (quiet_setNextpid _ next)
      split
      · exact ⟨g, Or.inl rfl, hO₂.ret _⟩
      · rename_i hsome
        split
        · exact ⟨g, Or.inl rfl, hO₂.ret _⟩
        · have hfree : (s.proctab pid).prstate = .free := (hpid hsome).2
          have hdead : ¬ g.live pid := fun h => (hO.inv.live pid).mp h hfree
          refine ⟨_, Or.inr ⟨pid, hdead, (hpid hsome).1, rfl⟩, ?_⟩
          apply Ok.ret
          apply Ok.resetStack
          have hO₃ : Ok w g (((s.setMem stk.2).setNextpid next).setPrcount (s.prcount + 1)) :=
            hO₂.quiet (quiet_setPrcount _ _)
          have hne : s.currpid ≠ pid := by
            apply hO.curr_ne
            intro h
            exact absurd (hfree.symm.trans h) (by decide)
          have hO₄ := setProcOff_ok (f := fun e => { e with
            prstate := .susp
            timestatein :=
              (((s.setMem stk.2).setNextpid next).setPrcount (s.prcount + 1)).now
            statetimes := fun i p => if i < QTYPE_VALS then ztime else e.statetimes i p
            prprio0 := priority
            prprio := priority
            prstkbase := saddr
            prstklen := roundew (if ssize < MINSTK then MINSTK else ssize)
            prsem := -1
            prparent := s.currpid
            prhasmsg := false }) hO₃ (home_free hfree) hne (home_susp rfl)
            (fun h => by cases h)
          rw [View.setLive_true (fun h => by cases h)] at hO₄
          exact hO₄

theorem resume_ok (hO : Ok w g s) (pid : Int) : Ok w g (s.resume pid) := by
  unfold Xinu.resume
  split
  · exact hO.ret _
  · rename_i hgood
    split
    · exact hO.ret _
    · rename_i hsusp
      have hstate : (s.proctab pid).prstate = .susp := not_not.mp hsusp
      have hO₁ : Ok w g (s.push (.ret (s.proctab pid).prprio)) := hO.push rfl
      apply Inv.ready_off hO₁ hgood (home_susp hstate)
      apply hO₁.curr_ne
      intro h
      exact absurd (hstate.symm.trans h) (by decide)

/-!
## Taking a process off the ready list
-/

/-- Unlinking a ready process, without counting it out. -/
theorem getitem_ready (hI : Inv w g EMPTY s) (hx : x ∈ lists s.queuetab readylist)
    (hc : ¬ w.count) : ∃ t, s.getitem x = s.setQueuetab t ∧ Inv w g x (s.setQueuetab t) ∧
      ∀ p ∈ lists t readylist, p ∈ lists s.queuetab readylist := by
  rcases Xinu.getitem_spec hI.queues isQueue_readylist hx with ⟨t, ht, hQ, hk⟩
  refine ⟨t, ht, ?_, ?_⟩
  · apply hI.remove hx (fun h => absurd h hc) (fun _ h => by cases h) hQ hk
    exact hI.lists_upd_ready
  · intro p hp
    rw [hQ.lists_upd isQueue_readylist, upd_self] at hp
    exact List.mem_of_mem_erase hp

/-- Unlinking a waiting process. -/
theorem getitem_wait (hI : Inv w g EMPTY s) (hx : x ∈ g.lists q) (hr : q ≠ readylist)
    (hs : q ≠ sleepq) : ∃ t, s.getitem x = s.setQueuetab t ∧
      Inv w (g.setList q ((g.lists q).erase x)) x (s.setQueuetab t) ∧
      lists t readylist = lists s.queuetab readylist := by
  rw [← hI.lists_eq q hr] at hx ⊢
  have hq := isQueue_of_mem hx
  rcases Xinu.getitem_spec hI.queues hq hx with ⟨t, ht, hQ, hk⟩
  refine ⟨t, ht, ?_, ?_⟩
  · apply hI.remove hx (fun _ => hr) (fun _ h => absurd h hs) hQ hk
    exact hI.lists_upd
  · rw [hQ.lists_upd hq, upd_of_ne hr.symm]

/-- Stopping the process in transit. -/
theorem halt_ok {f : Procent → Procent} (hI : Inv w g x s)
    (hcurr : (s.proctab s.currpid).prstate = .curr) (hne : s.currpid ≠ x)
    (hnull : x ≠ NULLPROC) (hhome : home (f (s.proctab x)) = none)
    (hf : (f (s.proctab x)).prstate ≠ .curr)
    (htop : w.keys → (g.defers = 0 ∨ s.defer.attempt = false) →
      ∀ p ∈ lists s.queuetab readylist,
        (s.proctab p).prprio ≤ (s.proctab s.currpid).prprio) :
    Ok w (g.setLive x ((f (s.proctab x)).prstate ≠ .free)) (s.setProc x f) := by
  have hset : Inv w (g.setLive x ((f (s.proctab x)).prstate ≠ .free)) x (s.setProc x f) := by
    apply hI.setProcLive
    · exact fun h => absurd h hf
    · intro r hr
      rw [hhome] at hr
      cases hr
    · intro h
      rw [home_wait h] at hhome
      cases hhome
    · exact fun h => absurd h hnull
  refine ⟨hset.close_hole ?_, ?_, ?_⟩
  · rw [setProc_self]
    exact hhome
  · show ((s.setProc x f).proctab s.currpid).prstate = .curr
    rw [setProc_of_ne s f hne]
    exact hcurr
  · intro hw ht p hp
    have hpx : p ≠ x := fun he => hI.off_hole readylist (he ▸ hp)
    show ((s.setProc x f).proctab p).prprio ≤ ((s.setProc x f).proctab s.currpid).prprio
    rw [setProc_of_ne s f hpx, setProc_of_ne s f hne]
    exact htop hw ht p hp

theorem suspend_ok (hO : Ok w g s) (hdef : g.defers = 0) {pid : Int}
    (hlimbo : ¬ g.limbo pid)
    (hcount : w.count → pid ≠ NULLPROC → (s.proctab pid).prstate ≠ .ready) :
    Ok w g (s.suspend pid) := by
  unfold Xinu.suspend
  split
  · exact hO.ret _
  · rename_i hgood
    have hnull : pid ≠ NULLPROC := (not_or.mp hgood).2
    split
    · exact hO.ret _
    · rename_i hstate
      dsimp only
      have hq := quiet_recordCpuqdata s s.currpid
      have hO₁ := hO.quiet hq
      rw [← hq.prstate] at hcount hstate
      generalize s.recordCpuqdata s.currpid = s₁ at hO₁ hcount hstate ⊢
      split
      · rename_i hready
        have hmem := hO₁.inv.mem_readylist hready hlimbo
        rcases getitem_ready hO₁.inv hmem (fun h => hcount h hnull hready)
          with ⟨t, ht, hI, hsub⟩
        rw [ht]
        apply Ok.ret
        have hne : s₁.currpid ≠ pid := by
          apply hO₁.curr_ne
          rw [hready]
          exact fun h => by cases h
        have hlive : g.live pid := by
          rw [hO₁.inv.live, hready]
          exact fun h => by cases h
        have h := halt_ok (f := fun e => { e with prstate := .susp }) hI hO₁.curr hne hnull
          (home_susp rfl) (fun h => by cases h)
          (fun hw ht p hp => hO₁.top hw ht p (hsub p hp))
        rw [View.setLive_same (iff_of_true (fun h => by cases h) hlive)] at h
        exact h
      · rename_i hready
        have hcurr : (s₁.proctab pid).prstate = .curr := by
          by_contra h
          exact hstate ⟨h, hready⟩
        have hpid := hO₁.inv.curr_unique pid hcurr
        rw [hpid] at hnull ⊢
        exact stop_ok (hO₁.push (f := .suspend s₁.currpid) rfl) (Int.le_of_eq hdef) hnull
          (fun h => by cases h) (home_susp rfl) (fun h => by cases h)

/-!
## Changing a priority
-/

theorem Inv.setPrprio (hI : Inv w g x s) {pid prio : Int}
    (hk : w.keys → pid ∈ lists s.queuetab readylist → prio = (s.proctab pid).prprio) :
    Inv w g x (s.setProc pid fun e => { e with prprio := prio }) := by
  have hself := setProc_self s pid fun e => { e with prprio := prio }
  have hother : ∀ p, p ≠ pid →
      (s.setProc pid fun e => { e with prprio := prio }).proctab p = s.proctab p :=
    fun p hp => setProc_of_ne s _ hp
  have hstate : ∀ p, ((s.setProc pid fun e => { e with prprio := prio }).proctab p).prstate =
      (s.proctab p).prstate := by
    intro p
    by_cases hp : p = pid
    · rw [hp, hself]
    · rw [hother p hp]
  have hsem : ∀ p, ((s.setProc pid fun e => { e with prprio := prio }).proctab p).prsem =
      (s.proctab p).prsem := by
    intro p
    by_cases hp : p = pid
    · rw [hp, hself]
    · rw [hother p hp]
  have hhome := fun p => home_congr (hstate p) (hsem p)
  exact { hI with
    mem_iff := fun q p => by
      rw [hhome]
      exact hI.mem_iff q p
    home_queue := fun p q h => hI.home_queue p q (hhome p ▸ h)
    waits_on := fun p h => by
      rw [hsem]
      exact hI.waits_on p (hstate p ▸ h)
    live := fun p => by
      rw [hstate]
      exact hI.live p
    limbo := fun p h => by
      rw [hstate]
      exact hI.limbo p h
    lost := fun p h => by
      rw [hstate]
      exact hI.lost p h
    curr_unique := fun p h => hI.curr_unique p (hstate p ▸ h)
    null_state := by
      rw [hstate]
      exact hI.null_state
    keys := fun hw p hp => by
      by_cases he : p = pid
      · rw [he] at hp ⊢
        rw [hself]
        exact (hI.keys hw pid hp).trans (hk hw hp).symm
      · rw [hother p he]
        exact hI.keys hw p hp }

/-- Under the priority scheduler, the condition under which {lit}`chprio` leaves
the order intact. -/
def Xinu.KeepsOrder (s : Xinu) (pid newprio : Int) : Prop :=
  ((s.proctab pid).prstate = .ready → newprio = (s.proctab pid).prprio) ∧
    (pid = s.currpid → ∀ p ∈ lists s.queuetab readylist, (s.proctab p).prprio ≤ newprio)

instance (s : Xinu) (pid newprio : Int) : Decidable (s.KeepsOrder pid newprio) :=
  inferInstanceAs (Decidable (_ ∧ _))

theorem chprio_ok (hO : Ok w g s) {pid newprio : Int}
    (hkeys : w.keys → s.KeepsOrder pid newprio) : Ok w g (s.chprio pid newprio) := by
  unfold Xinu.chprio
  split
  · exact hO.ret _
  · dsimp only
    have hO₁ : Ok w g (s.setProc pid fun e => { e with prprio := newprio }) := by
      refine ⟨?_, ?_, ?_⟩
      · apply hO.inv.setPrprio
        intro hw hp
        apply (hkeys hw).1
        exact hO.inv.ready_of_mem hp
      · show ((s.setProc pid _).proctab s.currpid).prstate = .curr
        by_cases hp : s.currpid = pid
        · have h1 := hO.curr
          rw [hp] at h1 ⊢
          rw [setProc_self]
          exact h1
        · rw [setProc_of_ne s _ hp]
          exact hO.curr
      · intro hw ht p hp
        show ((s.setProc pid _).proctab p).prprio ≤ ((s.setProc pid _).proctab s.currpid).prprio
        have hready := hO.inv.ready_of_mem hp
        have hle : ((s.setProc pid fun e => { e with prprio := newprio }).proctab p).prprio =
            (s.proctab p).prprio := by
          by_cases hpp : p = pid
          · rw [hpp] at hready ⊢
            rw [setProc_self]
            exact (hkeys hw).1 hready
          · rw [setProc_of_ne s _ hpp]
        rw [hle]
        by_cases hc : s.currpid = pid
        · rw [hc, setProc_self]
          exact (hkeys hw).2 hc.symm p hp
        · rw [setProc_of_ne s _ hc]
          exact hO.top hw ht p hp
    have hO₂ : ∀ s : Xinu, Ok w g s → Ok w g (s.setProc pid fun e =>
        { e with prprio0 := newprio }) :=
      fun s hs => hs.quiet (quiet_setProc s pid (fun _ => rfl) (fun _ => rfl) (fun _ => rfl))
    split
    · exact (hO₂ _ hO₁).ret _
    · exact hO₁.ret _

end

end BbbXinu
