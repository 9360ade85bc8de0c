import BbbXinu.Invariant.Resched

/-!
# Semaphore calls keep the invariant

They change the queues of semaphores only.  The null process must stay able to
run, so it may not make a call that would block it.
-/

namespace BbbXinu

open LinkedLists KeyedLists

/-- The call takes the processor from its caller until somebody else acts. -/
def Xinu.blocks (s : Xinu) : Call → Prop
  | .wait sem => ¬ isbadsem sem ∧ (s.semtab sem).sstate = .used ∧
      int32 ((s.semtab sem).scount - 1) < 0
  | .receive => (s.proctab s.currpid).prhasmsg = false
  | .recvtime maxwait => 0 ≤ maxwait ∧ (s.proctab s.currpid).prhasmsg = false
  | .sleepms delay => delay ≠ 0
  | .sleep delay => delay ≤ MAXSECONDS ∧ uint32 (1000 * delay) ≠ 0
  | .rwbTrywrite rwb => ¬ s.isbadrwb rwb ∧
      ((s.rwbtab rwb).rwcount ≠ 0 ∨ 0 < (s.rwbtab rwb).qcount)
  | .rwbTryread rwb => ¬ s.isbadrwb rwb ∧
      ((s.rwbtab rwb).rwcount < 0 ∨ 0 < (s.rwbtab rwb).qcount)
  | _ => False

instance (s : Xinu) (c : Call) : Decidable (s.blocks c) := by
  induction c using Call.casesOn <;> unfold Xinu.blocks <;> infer_instance

section

variable {w : Watch} {g : View} {x q : Int} {s : Xinu}

/-!
## Giving up the processor
-/

/-- The view after a process joined the end of a queue. -/
def View.append (g : View) (q pid : Int) : View := g.setList q (g.lists q ++ [pid])

/-- The running process joins the end of a queue. -/
theorem block_inv {f : Procent → Procent} (hO : Ok w g s)
    (hnull : s.currpid ≠ NULLPROC) (hwait : (f (s.proctab s.currpid)).prstate = .wait)
    (hprsem : waitq (f (s.proctab s.currpid)).prsem = q)
    (hon : WaitsOn (f (s.proctab s.currpid)).prsem) (hq : IsQueue q)
    (hr : q ≠ readylist) (hs : q ≠ sleepq) :
    ∃ t, (s.setProc s.currpid f).enqueue s.currpid q =
        (s.setProc s.currpid f).setQueuetab t ∧
      Inv w (g.append q s.currpid) EMPTY ((s.setProc s.currpid f).setQueuetab t) := by
  have hhome : home (f (s.proctab s.currpid)) = some q := by
    rw [home_wait hwait, hprsem]
  have hI : Inv w g s.currpid (s.setProc s.currpid f) := by
    apply (hO.inv.open_hole (home_curr hO.curr)).setProc
    · rw [hwait, hO.curr]
      exact iff_of_true (fun h => by cases h) (fun h => by cases h)
    · intro h
      simp [hwait] at h
    · intro r hr'
      rw [hhome] at hr'
      exact ⟨hO.inv.valid_curr, Option.some.inj hr' ▸ hq⟩
    · exact fun _ => hon
    · exact fun h => absurd h hnull
  have hself := setProc_self s s.currpid f
  have hv := hO.inv.valid_curr
  generalize s.setProc s.currpid f = s₁ at hI hself ⊢
  generalize s.currpid = pid at hI hself hv hwait hhome ⊢
  have hbad : ¬ s₁.isbadpid pid := by
    rw [Xinu.not_isbadpid_iff, hself, hwait]
    exact ⟨hv, by decide⟩
  rcases Xinu.enqueue_spec hI.queues hq hbad (fun r _ => hI.off_hole r) with ⟨t, ht, hQ, hk⟩
  have hhome₁ : home (s₁.proctab pid) = some q := by
    rw [hself]
    exact hhome
  refine ⟨t, ht, ?_⟩
  apply hI.append hhome₁ hr hs hQ hk
  rw [hI.lists_eq q hr]
  exact hI.lists_upd

/-- The running process waits at the end of a queue. -/
theorem block_ok {f : Procent → Procent} (hO : Ok w g s) (hd : g.defers ≤ 0)
    (hnull : s.currpid ≠ NULLPROC) (hwait : (f (s.proctab s.currpid)).prstate = .wait)
    (hprsem : waitq (f (s.proctab s.currpid)).prsem = q)
    (hon : WaitsOn (f (s.proctab s.currpid)).prsem) (hq : IsQueue q)
    (hr : q ≠ readylist) (hs : q ≠ sleepq) :
    Ok w (g.append q s.currpid)
      ((s.setProc s.currpid f).enqueue s.currpid q).resched := by
  rcases block_inv hO hnull hwait hprsem hon hq hr hs with ⟨t, ht, hI⟩
  rw [ht]
  exact resched_ok hI (Or.inl hd)

/-- The running process stops without joining a queue. -/
theorem stopLive_inv {f : Procent → Procent} (hO : Ok w g s)
    (hnull : s.currpid ≠ NULLPROC) (hcurr : (f (s.proctab s.currpid)).prstate ≠ .curr)
    (hhome : home (f (s.proctab s.currpid)) = none) :
    Inv w (g.setLive s.currpid ((f (s.proctab s.currpid)).prstate ≠ .free)) EMPTY
      (s.setProc s.currpid f) := by
  have hI : Inv w (g.setLive s.currpid ((f (s.proctab s.currpid)).prstate ≠ .free)) s.currpid
      (s.setProc s.currpid f) := by
    apply (hO.inv.open_hole (home_curr hO.curr)).setProcLive
    · exact fun h => absurd h hcurr
    · intro r hr
      rw [hhome] at hr
      cases hr
    · intro h
      rw [home_wait h] at hhome
      cases hhome
    · exact fun h => absurd h hnull
  apply hI.close_hole
  rw [setProc_self]
  exact hhome

theorem stopLive_ok {f : Procent → Procent} (hO : Ok w g s) (hd : g.defers ≤ 0)
    (hnull : s.currpid ≠ NULLPROC) (hcurr : (f (s.proctab s.currpid)).prstate ≠ .curr)
    (hhome : home (f (s.proctab s.currpid)) = none) :
    Ok w (g.setLive s.currpid ((f (s.proctab s.currpid)).prstate ≠ .free))
      (s.setProc s.currpid f).resched :=
  resched_ok (stopLive_inv hO hnull hcurr hhome) (Or.inl hd)

theorem Ok.live_curr (hO : Ok w g s) : g.live s.currpid := by
  rw [hO.inv.live, hO.curr]
  exact fun h => by cases h

theorem stop_ok {f : Procent → Procent} (hO : Ok w g s) (hd : g.defers ≤ 0)
    (hnull : s.currpid ≠ NULLPROC) (hcurr : (f (s.proctab s.currpid)).prstate ≠ .curr)
    (hhome : home (f (s.proctab s.currpid)) = none)
    (hfree : (f (s.proctab s.currpid)).prstate ≠ .free) :
    Ok w g (s.setProc s.currpid f).resched := by
  have h := stopLive_ok hO hd hnull hcurr hhome
  rw [View.setLive_same (iff_of_true hfree hO.live_curr)] at h
  exact h

theorem Ok.ret (hO : Ok w g s) (v : Int) : Ok w g (s.ret v) := hO.quiet (quiet_ret s v)

theorem Ok.push (hO : Ok w g s) {f : Frame} (hf : f.tracked = false) : Ok w g (s.push f) :=
  hO.quiet (quiet_push s hf)

/-- A call that may switch and then returns a value. -/
theorem yield_ok (hO : Ok w g s) : Ok w g s.yield :=
  resched_ok (hO.push rfl).inv (Or.inr hO.curr)

/-!
## Semaphores
-/

theorem sstate_ne_free {e : Sentry} (h : ¬ e.sstate = .free) : e.sstate = .used := by
  cases hs : e.sstate with
  | free => exact absurd hs h
  | used => rfl

theorem semcreate_ok (hO : Ok w g s) (count : Int) : Ok w g (s.semcreate count) := by
  have hloop : ∀ n s, Ok w g s → Ok w g (Xinu.newsemLoop n s).2 := by
    intro n
    induction n with
    | zero => exact fun s hO => hO
    | succ n ih =>
        intro s hO
        unfold Xinu.newsemLoop
        dsimp only
        generalize (if NSEM ≤ s.nextsem + 1 then 0 else s.nextsem + 1) = next
        have hO₁ : Ok w g (s.setNextsem next) := hO.quiet
          ⟨rfl, fun _ => rfl, fun _ => rfl, fun _ => rfl, fun _ => rfl, rfl, rfl,
            fun _ => rfl, rfl, rfl, rfl, rfl, rfl⟩
        split
        · dsimp only
          exact hO₁.quiet (quiet_setSem _ _ (by intro _; rfl))
        · exact ih _ hO₁
  unfold Xinu.semcreate
  split
  · exact hO.ret _
  · have hO₁ : Ok w g s.newsem.2 := hloop _ s hO
    dsimp only
    split
    · exact hO₁.ret _
    · exact (hO₁.quiet (quiet_setSem _ _ (by intro _; rfl))).ret _

theorem setSem_self (s : Xinu) (i : Int) (f : Sentry → Sentry) :
    (s.setSem i f).semtab i = f (s.semtab i) := upd_self

/-- The views differ in queues of semaphores only. -/
structure View.Still (g g' : View) : Prop where
  live : g'.live = g.live
  limbo : g'.limbo = g.limbo
  lost : g'.lost = g.lost
  due : g'.due = g.due
  lists : ∀ q, (∀ sem, ¬ isbadsem sem → q ≠ semq sem) → g'.lists q = g.lists q
  tab : g'.tab = g.tab
  flags : g'.flags = g.flags
  frames : g'.frames = g.frames
  defers : g'.defers = g.defers

theorem View.Still.refl (g : View) : g.Still g :=
  ⟨rfl, rfl, rfl, rfl, fun _ _ => rfl, rfl, rfl, rfl, rfl⟩

theorem View.Still.trans {g' g'' : View} (h : g.Still g') (h' : g'.Still g'') :
    g.Still g'' where
  live := h'.live.trans h.live
  limbo := h'.limbo.trans h.limbo
  lost := h'.lost.trans h.lost
  due := h'.due.trans h.due
  lists := fun q hq => (h'.lists q hq).trans (h.lists q hq)
  tab := h'.tab.trans h.tab
  flags := h'.flags.trans h.flags
  frames := h'.frames.trans h.frames
  defers := h'.defers.trans h.defers

theorem View.still_setList (g : View) {sem : Int} (h : ¬ isbadsem sem) (l : List Int) :
    g.Still (g.setList (semq sem) l) where
  live := rfl
  limbo := rfl
  lost := rfl
  due := rfl
  lists := fun _ hq => upd_of_ne (hq sem h)
  tab := rfl
  flags := rfl
  frames := rfl
  defers := rfl

theorem semq_ne_readylist {sem : Int} (h : ¬ isbadsem sem) : semq sem ≠ readylist :=
  Int.ne_of_lt (semq_lt h)

theorem semq_ne_sleepq {sem : Int} (h : ¬ isbadsem sem) : semq sem ≠ sleepq := by
  have hlt := semq_lt h
  intro he
  rw [he] at hlt
  exact absurd hlt (by decide)

theorem wait_ok (hO : Ok w g s) (hd : g.defers = 0) {sem : Int}
    (hnull : s.currpid = NULLPROC → ¬ s.blocks (.wait sem)) :
    ∃ g', g.Still g' ∧ Ok w g' (s.wait sem) := by
  unfold Xinu.wait
  split
  · exact ⟨g, .refl g, hO.ret _⟩
  · rename_i hgood
    split
    · exact ⟨g, .refl g, hO.ret _⟩
    · rename_i hused
      dsimp only
      rw [setSem_self]
      dsimp only
      have hq₁ : Quiet s (s.setSem sem fun e => { e with scount := int32 (e.scount - 1) }) :=
        quiet_setSem s sem fun _ => rfl
      split
      · rename_i hcount
        have hblocks : s.blocks (.wait sem) := ⟨hgood, sstate_ne_free hused, hcount⟩
        generalize (s.setSem sem fun e => { e with scount := int32 (e.scount - 1) }) = s₁
          at hq₁ ⊢
        have hq₃ : Quiet s ((s₁.push (.ret OK)).recordCpuqdata (s₁.push (.ret OK)).currpid) :=
          (hq₁.trans (quiet_push s₁ rfl)).trans (quiet_recordCpuqdata _ _)
        generalize (s₁.push (.ret OK)).recordCpuqdata (s₁.push (.ret OK)).currpid = s₃
          at hq₃ ⊢
        have hO₃ := hO.quiet hq₃
        refine ⟨g.append (semq sem) s₃.currpid, g.still_setList hgood _, ?_⟩
        show Ok w _ (((s₃.setProc s₃.currpid _).enqueue s₃.currpid
          (s₃.semtab sem).squeue).resched)
        rw [hO₃.inv.squeue sem hgood]
        apply block_ok hO₃ (Int.le_of_eq hd)
        · rw [hq₃.currpid]
          exact fun h => hnull h hblocks
        · rfl
        · exact waitq_sem hgood
        · exact Or.inl hgood
        · exact isQueue_semq hgood
        · exact semq_ne_readylist hgood
        · exact semq_ne_sleepq hgood
      · exact ⟨g, .refl g, (hO.quiet hq₁).ret _⟩

/-- One more signal on a semaphore. -/
theorem signalOne_ok (hO : Ok w g s) {sem : Int} (hgood : ¬ isbadsem sem) :
    ∃ g', g.Still g' ∧ Ok w g'
      (if (s.semtab sem).scount < 0 then
        (s.setSem sem fun e => { e with scount := int32 (e.scount + 1) }).readyDequeue
          ((s.setSem sem fun e => { e with scount := int32 (e.scount + 1) }).semtab sem).squeue
      else s.setSem sem fun e => { e with scount := int32 (e.scount + 1) }) := by
  have hO₁ := hO.quiet (quiet_setSem s sem
    (f := fun e => { e with scount := int32 (e.scount + 1) }) fun _ => rfl)
  split
  · refine ⟨g.pop (semq sem), g.still_setList hgood _, ?_⟩
    rw [hO₁.inv.squeue sem hgood]
    exact readyDequeue_ok hO₁ (isQueue_semq hgood) (semq_ne_readylist hgood)
      (semq_ne_sleepq hgood)
  · exact ⟨g, .refl g, hO₁⟩

theorem signal_ok (hO : Ok w g s) (sem : Int) :
    ∃ g', g.Still g' ∧ Ok w g' (s.signal sem) := by
  unfold Xinu.signal
  split
  · exact ⟨g, .refl g, hO.ret _⟩
  · rename_i hgood
    split
    · exact ⟨g, .refl g, hO.ret _⟩
    · dsimp only
      have hO₁ := hO.quiet (quiet_setSem s sem
        (f := fun e => { e with scount := int32 (e.scount + 1) }) fun _ => rfl)
      split
      · refine ⟨g.pop (semq sem), g.still_setList hgood _, ?_⟩
        rw [hO₁.inv.squeue sem hgood]
        exact readyDequeue_ok (hO₁.push rfl) (isQueue_semq hgood) (semq_ne_readylist hgood)
          (semq_ne_sleepq hgood)
      · exact ⟨g, .refl g, hO₁.ret _⟩

theorem signalnLoop_ok {sem : Int} (hgood : ¬ isbadsem sem) (n : Nat) (hO : Ok w g s) :
    ∃ g', g.Still g' ∧ Ok w g' (Xinu.signalnLoop sem n s) := by
  induction n generalizing g s with
  | zero => exact ⟨g, .refl g, hO⟩
  | succ n ih =>
      rcases signalOne_ok hO hgood with ⟨g₁, hg₁, hO₁⟩
      rcases ih hO₁ with ⟨g₂, hg₂, hO₂⟩
      exact ⟨g₂, hg₁.trans hg₂, hO₂⟩

theorem readyAll_ok (hq : IsQueue q) (hr : q ≠ readylist) (hs : q ≠ sleepq) (n : Nat)
    (hO : Ok w g s) : ∃ l, Ok w (g.setList q l) (Xinu.readyAll q n s) := by
  induction n generalizing g s with
  | zero =>
      refine ⟨g.lists q, ?_⟩
      unfold View.setList
      rw [upd_eq_self rfl]
      exact hO
  | succ n ih =>
      have hstep := readyGetfirst_ok hO hq hr hs
      unfold Xinu.readyAll
      dsimp only
      split
      · rename_i hempty
        rw [hempty, ready_bad (isbadpid_empty _)] at hstep
        exact ⟨_, hstep⟩
      · rcases ih hstep with ⟨l, hl⟩
        refine ⟨l, ?_⟩
        have hview : (g.pop q).setList q l = g.setList q l := by
          unfold View.pop View.setList View.setLists
          rw [upd_upd]
        rw [hview] at hl
        exact hl

theorem semdeleteLoop_ok {sem : Int} (hgood : ¬ isbadsem sem) (n : Nat) (hO : Ok w g s) :
    ∃ g', g.Still g' ∧ Ok w g' (Xinu.semdeleteLoop sem n s) := by
  induction n generalizing g s with
  | zero => exact ⟨g, .refl g, hO⟩
  | succ n ih =>
      have hO₁ := hO.quiet (quiet_setSem s sem
        (f := fun e => { e with scount := e.scount + 1 }) fun _ => rfl)
      have hstep := readyGetfirst_ok hO₁ (isQueue_semq hgood) (semq_ne_readylist hgood)
        (semq_ne_sleepq hgood)
      rw [← hO₁.inv.squeue sem hgood] at hstep
      rcases ih hstep with ⟨g₂, hg₂, hO₂⟩
      refine ⟨g₂, ?_, hO₂⟩
      rw [hO₁.inv.squeue sem hgood] at hg₂
      exact (g.still_setList hgood _).trans hg₂

theorem View.Still.setDefers {g' : View} (h : g.Still g') (n : Int) :
    (g.setDefers n).Still (g'.setDefers n) :=
  ⟨h.live, h.limbo, h.lost, h.due, h.lists, h.tab, h.flags, h.frames, rfl⟩

theorem View.setDefers_zero (hd : g.defers = 0) : g.setDefers 0 = g := by
  rw [← hd]
  rfl

/-- What runs between the two halves of a deferral keeps the invariant if it
does so while the deferral is outstanding. -/
theorem deferred_ok {F : Xinu → Xinu} (hO : Ok w g s) (hd : g.defers = 0)
    (hF : ∀ s, Ok w (g.setDefers 1) s →
      ∃ g', (g.setDefers 1).Still g' ∧ Ok w g' (F s)) :
    ∃ g', g.Still g' ∧
      Ok w g' ((F (s.reschedCntl DEFER_START)).reschedCntl DEFER_STOP) := by
  rcases hF _ (deferStart_ok hO hd) with ⟨g', hg', hO'⟩
  refine ⟨g'.setDefers 0, ?_, deferStop_ok hO' hg'.defers⟩
  have h := hg'.setDefers 0
  rw [← View.setDefers_zero hd]
  exact h

theorem signaln_ok (hO : Ok w g s) (hd : g.defers = 0) (sem count : Int) :
    ∃ g', g.Still g' ∧ Ok w g' (s.signaln sem count) := by
  unfold Xinu.signaln
  split
  · exact ⟨g, .refl g, hO.ret _⟩
  · rename_i hgood
    split
    · exact ⟨g, .refl g, hO.ret _⟩
    · exact deferred_ok (hO.push rfl) hd fun s hs =>
        signalnLoop_ok (not_or.mp hgood).1 count.toNat hs

theorem semreset_ok (hO : Ok w g s) (hd : g.defers = 0) (sem count : Int) :
    ∃ g', g.Still g' ∧ Ok w g' (s.semreset sem count) := by
  unfold Xinu.semreset
  split
  · exact ⟨g, .refl g, hO.ret _⟩
  · rename_i hgood
    have hsem : ¬ isbadsem sem := fun h => hgood (Or.inr (Or.inl h))
    dsimp only
    have hsq : ((s.push (.ret OK)).semtab sem).squeue = semq sem := hO.inv.squeue sem hsem
    rw [hsq]
    apply deferred_ok (F := fun s => (Xinu.readyAll (semq sem) Xinu.queueFuel s).setSem sem
      fun e => { e with scount := count }) (hO.push rfl) hd
    intro s hs
    rcases readyAll_ok (isQueue_semq hsem) (semq_ne_readylist hsem) (semq_ne_sleepq hsem)
      Xinu.queueFuel hs with ⟨l, hl⟩
    exact ⟨_, View.still_setList _ hsem l, hl.quiet (quiet_setSem _ _ fun _ => rfl)⟩

theorem semdelete_ok (hO : Ok w g s) (hd : g.defers = 0) (sem : Int) :
    ∃ g', g.Still g' ∧ Ok w g' (s.semdelete sem) := by
  unfold Xinu.semdelete
  split
  · exact ⟨g, .refl g, hO.ret _⟩
  · rename_i hgood
    split
    · exact ⟨g, .refl g, hO.ret _⟩
    · dsimp only
      have hO₁ : Ok w g ((s.push (.ret OK)).setSem sem fun e => { e with sstate := .free }) :=
        (hO.push rfl).quiet (quiet_setSem _ _ fun _ => rfl)
      apply deferred_ok (F := fun s' => (Xinu.semdeleteLoop sem _ s').setSem sem
        fun e => { e with scount := int32 (e.scount + 1) }) hO₁ hd
      intro s' hs
      rcases semdeleteLoop_ok hgood _ hs with ⟨g', hg', hO'⟩
      exact ⟨g', hg', hO'.quiet (quiet_setSem _ _ fun _ => rfl)⟩

end

end BbbXinu
