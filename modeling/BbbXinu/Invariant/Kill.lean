import BbbXinu.Invariant.Blockers

/-!
# Killing a process

What {lit}`kill` does depends on the state of its victim.  A ready victim that
looks as if it were inside a blocker is unlinked first and freed only after
{lit}`_signalrwb` is done; in between it is in limbo.
-/

namespace BbbXinu

open LinkedLists KeyedLists

/-- A process that belongs on a queue is on it. -/
def Xinu.Linked (s : Xinu) (pid : Int) : Prop :=
  match home (s.proctab pid) with
  | none => True
  | some q => pid ∈ lists s.queuetab q

instance (s : Xinu) (pid : Int) : Decidable (s.Linked pid) := by
  unfold Xinu.Linked
  cases home (s.proctab pid) <;> infer_instance

namespace View

variable (g : View)

/-- A process is taken off a queue. -/
def unqueue (q pid : Int) : View := g.setList q ((g.lists q).erase pid)

theorem unqueue_at (q pid : Int) : (g.unqueue q pid).lists q = (g.lists q).erase pid :=
  g.setList_at q _

/-- The blocker exists and is in use. -/
def Usable (rwb : Int) : Prop := ValidRwb rwb ∧ (g.tab rwb).rwstate ≠ .free

instance (rwb : Int) : Decidable (g.Usable rwb) :=
  inferInstanceAs (Decidable (_ ∧ _))

/-- A ready victim. -/
def killReady (pid victim prsem : Int) : View :=
  if g.flags victim ≠ 0 ∧ prsem < -1 then
    let g := (g.setLimbo fun p => p = victim ∨ g.limbo p).pushFrame pid (.killSignaled victim)
    if g.Usable (-1 * (prsem + 2)) then g.signalrwb pid victim (-1 * (prsem + 2)) else g
  else g.setLive victim False

/-- A victim in a blocker's queue. -/
def killWaiting (victim rwb : Int) : View :=
  (((g.setFlag victim 0).setRwb rwb fun e => { e with qcount := e.qcount - 1 }).unqueue
    (rwq rwb) victim).setLive victim False

def killState (pid victim : Int) (prstate : PrState) (prsem : Int) : View :=
  match prstate with
  | .sleep | .rectim => (g.unqueue sleepq victim).setLive victim False
  | .wait =>
      if prsem < -1 then g.killWaiting victim (-1 * (prsem + 2))
      else (g.unqueue (semq prsem) victim).setLive victim False
  | .ready => g.killReady pid victim prsem
  | .free | .curr | .recv | .susp => g.setLive victim False

def killSignaled (victim : Int) : View :=
  (g.setLimbo fun p => p ≠ victim ∧ g.limbo p).setLive victim False

end View

section

variable {w : Watch} {g g' : View} {x q : Int} {s : Xinu} {pid : Int}

theorem Linked.mem (h : s.Linked pid) (hq : home (s.proctab pid) = some q) :
    pid ∈ lists s.queuetab q := by
  unfold Xinu.Linked at h
  rw [hq] at h
  exact h

/-- Taking a process off another queue adds nothing to the ready list. -/
theorem Inv.ready_subset {t : Int → Qentry} (hI : Inv w g EMPTY s)
    (hI' : Inv w g' x (s.setQueuetab t)) (hlimbo : g'.limbo = g.limbo)
    (hlost : g'.lost = g.lost) {p : Int} (hp : p ∈ lists t readylist) :
    p ∈ lists s.queuetab readylist := by
  have h := (hI'.mem_iff readylist p).mp hp
  rw [hlimbo, hlost] at h
  exact (hI.mem_iff readylist p).mpr ⟨h.1, hI.ne_empty h.1, h.2.2⟩

/-- The process in transit is freed. -/
theorem free_ok {t : Int → Qentry} (hO : Ok w g s) (hI : Inv w g' x (s.setQueuetab t))
    (hne : s.currpid ≠ x) (hnull : x ≠ NULLPROC) (hlimbo : g'.limbo = g.limbo)
    (hlost : g'.lost = g.lost) (hdefers : g'.defers = g.defers) :
    Ok w (g'.setLive x False) ((s.setQueuetab t).killSignaled x) := by
  have h := halt_ok (f := fun e => { e with prstate := .free }) hI hO.curr hne hnull
    (home_free rfl) (fun h => by cases h) (fun hw ht p hp =>
      hO.top hw (hdefers ▸ ht) p (hO.inv.ready_subset hI hlimbo hlost hp))
  rw [View.setLive_false (not_not.mpr rfl)] at h
  exact h.ret _

/-- A victim that is on no queue. -/
theorem killOff_ok (hO : Ok w g s) (hhome : home (s.proctab pid) = none)
    (hne : s.currpid ≠ pid) : Ok w (g.setLive pid False) (s.killSignaled pid) := by
  have h := setProcOff_ok (f := fun e => { e with prstate := .free }) hO hhome hne
    (home_free rfl) (fun h => by cases h)
  rw [View.setLive_false (not_not.mpr rfl)] at h
  exact h.ret _

/-!
## Victims on a queue
-/

theorem killSleeping_ok (hO : Ok w g s) (hnull : pid ≠ NULLPROC)
    (hbound : w.delays → g.Bounded)
    (hstate : (s.proctab pid).prstate = .sleep ∨ (s.proctab pid).prstate = .rectim) :
    Ok w ((g.unqueue sleepq pid).setLive pid False) ((s.unsleep pid).killSignaled pid) := by
  rcases unsleep_inv hO.inv hbound hstate with ⟨t, ht, hI⟩
  rw [ht]
  refine free_ok hO hI ?_ hnull rfl rfl rfl
  apply hO.curr_ne
  rcases hstate with h | h <;> rw [h] <;> exact fun h => by cases h

theorem killUnlink_quiet (hO : Ok w g s) (hnull : pid ≠ NULLPROC) (hmem : pid ∈ g.lists q)
    (hstate : (s.proctab pid).prstate = .wait) (hr : q ≠ readylist) (hs : q ≠ sleepq)
    (hflag : ¬ (s.rwbflags pid ≠ 0 ∧ (s.proctab pid).prsem < -1)) :
    Ok w ((g.unqueue q pid).setLive pid False) (s.killUnlink pid) := by
  rcases getitem_wait hO.inv hmem hr hs with ⟨t, ht, hI, _⟩
  unfold Xinu.killUnlink
  rw [ht]
  dsimp only
  rw [if_neg (by exact hflag)]
  refine free_ok hO hI ?_ hnull rfl rfl rfl
  apply hO.curr_ne
  rw [hstate]
  exact fun h => by cases h

theorem killWaiting_ok {rwb : Int} (hO : Ok w g s) (hnull : pid ≠ NULLPROC)
    (hb : ValidRwb rwb) (hmem : pid ∈ g.lists (rwq rwb))
    (hstate : (s.proctab pid).prstate = .wait) :
    Ok w (g.killWaiting pid rwb)
      (((s.setFlag pid 0).setRwb rwb fun e =>
        { e with qcount := e.qcount - 1 }).killUnlink pid) := by
  have hO₁ := (hO.setFlag pid 0).setRwb rwb (f := fun e => { e with qcount := e.qcount - 1 })
    fun _ => rfl
  apply killUnlink_quiet hO₁ hnull hmem hstate (rwq_ne_readylist hb) (rwq_ne_sleepq hb)
  rintro ⟨h, _⟩
  exact h upd_self

/-- A ready victim is unlinked and then freed, at once or after
{lit}`_signalrwb`. -/
theorem killReady_ok (hO : Ok w g s) (hnull : pid ≠ NULLPROC)
    (hmem : pid ∈ lists s.queuetab readylist)
    (hstate : (s.proctab pid).prstate = .ready) (hcount : ¬ w.count) :
    Ok w (g.killReady s.currpid pid (s.proctab pid).prsem) (s.killUnlink pid) := by
  have hne : s.currpid ≠ pid := by
    apply hO.curr_ne
    rw [hstate]
    exact fun h => by cases h
  rcases getitem_ready hO.inv hmem hcount with ⟨t, ht, hI, hsub⟩
  unfold Xinu.killUnlink View.killReady
  rw [ht]
  have hflags : (s.setQueuetab t).rwbflags = g.flags := hO.inv.flags
  have hprsem : ((s.setQueuetab t).proctab pid).prsem = (s.proctab pid).prsem := rfl
  dsimp only
  rw [hflags, hprsem]
  split
  · have hO₁ : Ok w (g.setLimbo fun p => p = pid ∨ g.limbo p) (s.setQueuetab t) :=
      ⟨hI.to_limbo hstate hnull, hO.curr, fun hw ht p hp => hO.top hw ht p (hsub p hp)⟩
    have hO₂ := hO₁.pushTracked (f := .killSignaled pid) rfl
    have hready : (((s.setQueuetab t).push (.killSignaled pid)).proctab pid).prstate =
        .ready := hstate
    have hgood : ¬ ((s.setQueuetab t).push (.killSignaled pid)).isbadpid pid := by
      rw [Xinu.not_isbadpid_iff, hready]
      exact ⟨(hO.inv.home_queue pid _ (home_ready hstate)).1, fun h => by cases h⟩
    have hsignal := _signalrwb_ok (-1 * ((s.proctab pid).prsem + 2)) hO₂
      (by rw [hready]; exact fun h => by cases h)
    have husable : View.Usable g (-1 * ((s.proctab pid).prsem + 2)) ↔
        ¬ ((s.setQueuetab t).push (.killSignaled pid)).isbadrwb
          (-1 * ((s.proctab pid).prsem + 2)) := by
      rw [not_isbadrwb_iff, hO₂.inv.tab]
      exact Iff.rfl
    split
    · rename_i h
      exact hsignal.2 (husable.mp h) hgood
    · rename_i h
      exact hsignal.1 (Or.inl (not_not.mp fun hb => h (husable.mpr hb)))
  · exact free_ok hO hI hne hnull rfl rfl rfl

/-!
## The three stages of {lit}`kill`
-/

theorem killState_ok (hO : Ok w g s) (hdef : g.defers = 0) (hnull : pid ≠ NULLPROC)
    (hlinked : s.Linked pid) (hcount : w.count → (s.proctab pid).prstate ≠ .ready)
    (hbound : w.delays → g.Bounded) :
    Ok w (g.killState s.currpid pid (s.proctab pid).prstate (s.proctab pid).prsem)
      (s.killState pid) := by
  unfold Xinu.killState View.killState
  have hoff : home (s.proctab pid) = none → (s.proctab pid).prstate ≠ .curr →
      Ok w (g.setLive pid False) (s.killSignaled pid) :=
    fun hhome hcurr => killOff_ok hO hhome (hO.curr_ne hcurr)
  cases hstate : (s.proctab pid).prstate with
  | curr =>
      have hpid := hO.inv.curr_unique pid hstate
      rw [hpid] at hnull ⊢
      have h := stopLive_ok (f := fun e => { e with prstate := .free }) hO
        (Int.le_of_eq hdef) hnull (fun h => by cases h) (home_free rfl)
      rw [View.setLive_false (not_not.mpr rfl)] at h
      exact h
  | sleep => exact killSleeping_ok hO hnull hbound (Or.inl hstate)
  | rectim => exact killSleeping_ok hO hnull hbound (Or.inr hstate)
  | ready =>
      exact killReady_ok hO hnull (Linked.mem hlinked (home_ready hstate)) hstate
        fun h => hcount h hstate
  | wait =>
      have hmem := Linked.mem hlinked (home_wait hstate)
      dsimp only
      split
      · rename_i hprsem
        have hb : ValidRwb (-1 * ((s.proctab pid).prsem + 2)) := by
          rcases hO.inv.waits_on pid hstate with h | h
          · simp only [isbadsem, not_or, Int.not_lt] at h
            omega
          · exact h.2
        unfold waitq at hmem
        rw [if_pos hprsem, hO.inv.lists_eq _ (rwq_ne_readylist hb)] at hmem
        exact killWaiting_ok hO hnull hb hmem hstate
      · rename_i hprsem
        have hsem : ¬ isbadsem (s.proctab pid).prsem := by
          rcases hO.inv.waits_on pid hstate with h | h
          · exact h
          · exact absurd h.1 hprsem
        rw [waitq_sem hsem, hO.inv.lists_eq _ (semq_ne_readylist hsem)] at hmem
        have hO₁ := hO.quiet (quiet_setSem s (s.proctab pid).prsem
          (f := fun e => { e with scount := int32 (e.scount + 1) }) fun _ => rfl)
        exact killUnlink_quiet hO₁ hnull hmem hstate (semq_ne_readylist hsem)
          (semq_ne_sleepq hsem) (fun h => hprsem h.2)
  | free => exact hoff (home_free hstate) (by rw [hstate]; exact fun h => by cases h)
  | recv => exact hoff (home_recv hstate) (by rw [hstate]; exact fun h => by cases h)
  | susp => exact hoff (home_susp hstate) (by rw [hstate]; exact fun h => by cases h)

theorem quiet_countFinished (s : Xinu) (pid : Int) : Quiet s (s.countFinished pid) :=
  ⟨rfl, fun _ => rfl, fun _ => rfl, fun _ => rfl, fun _ => rfl, rfl, rfl, fun _ => rfl,
    rfl, rfl, rfl, rfl, rfl⟩

theorem killSent_ok (hO : Ok w g s) (hdef : g.defers = 0) (hnull : pid ≠ NULLPROC)
    (hlinked : s.Linked pid) (hcount : w.count → (s.proctab pid).prstate ≠ .ready)
    (hbound : w.delays → g.Bounded) :
    Ok w (g.killState s.currpid pid (s.proctab pid).prstate (s.proctab pid).prsem)
      (s.killSent pid) := by
  unfold Xinu.killSent
  dsimp only
  generalize s.mem.freestk _ _ = m
  have hq : Quiet s (((s.setMem m).recordCpuqdata pid).countFinished pid) :=
    ((quiet_setMem s m).trans (quiet_recordCpuqdata _ _)).trans (quiet_countFinished _ _)
  generalize ((s.setMem m).recordCpuqdata pid).countFinished pid = s₁ at hq ⊢
  rw [← hq.currpid, ← hq.prstate, ← hq.prsem]
  apply killState_ok (hO.quiet hq) hdef hnull
  · unfold Xinu.Linked at hlinked ⊢
    rw [hq.home, hq.queuetab]
    exact hlinked
  · rw [hq.prstate]
    exact hcount
  · exact hbound

theorem killSignaled_ok (hO : Ok w g s) (hlimbo : g.limbo pid) :
    Ok w (g.killSignaled pid) (s.killSignaled pid) := by
  have hready := (hO.inv.limbo pid hlimbo).2.2
  have hne : s.currpid ≠ pid := by
    apply hO.curr_ne
    rw [hready]
    exact fun h => by cases h
  have h := halt_ok (f := fun e => { e with prstate := .free }) (hO.inv.from_limbo hlimbo)
    hO.curr hne (hO.inv.limbo pid hlimbo).2.1 (home_free rfl) (fun h => by cases h) hO.top
  rw [View.setLive_false (not_not.mpr rfl)] at h
  exact h.ret _

theorem kill_ok (hO : Ok w g s) (hbound : w.delays → g.Bounded) (pid : Int) :
    ∃ g', (g' = g ∨ ¬ s.isbadpid pid ∧ pid ≠ NULLPROC ∧
        (g' = g.pushFrame s.currpid (.killSent pid) ∨
          g' = (g.pushFrame s.currpid (.killSent pid)).unqueue sleepq
            (s.proctab pid).prparent)) ∧
      Ok w g' (s.kill pid) := by
  unfold Xinu.kill
  split
  · exact ⟨g, Or.inl rfl, hO.ret _⟩
  · rename_i hgood
    dsimp only
    have hO₁ := hO.quiet (quiet_setPrcount s (s.prcount - 1))
    split
    · exact ⟨g, Or.inl rfl, hO₁.quiet ⟨rfl, fun _ => rfl, fun _ => rfl, fun _ => rfl,
        fun _ => rfl, rfl, rfl, fun _ => rfl, rfl, rfl, rfl, rfl, rfl⟩⟩
    · have hO₂ := hO₁.pushTracked (f := .killSent pid) rfl
      rcases send_ok hO₂ hbound (s.proctab pid).prparent pid.toNat with ⟨g', hg', hO₃⟩
      exact ⟨g', Or.inr ⟨fun h => hgood (Or.inl h), fun h => hgood (Or.inr (Or.inl h)), hg'⟩,
        hO₃⟩

end

end BbbXinu
