import BbbXinu.Invariant.Transit

/-!
# Rescheduling keeps the invariant

{lit}`dispatch`, {lit}`resched` and {lit}`ready` keep the view: whatever runs
afterwards, the blockers, the sleepers and the suspended kernel code are as
before.
-/

namespace BbbXinu

open LinkedLists KeyedLists

section

variable {w : Watch} {g : View} {x q : Int} {s : Xinu}

theorem uint16_pred {n : Nat} (h : n + 1 ≤ 100) : uint16 (((n + 1 : Nat) : Int) - 1) = n := by
  unfold uint16
  omega

theorem uint16_succ {n : Nat} (h : n ≤ 100) : uint16 ((n : Int) + 1) = n + 1 := by
  unfold uint16
  omega

theorem Inv.length_le (hI : Inv w g x s) (hq : IsQueue q) :
    (lists s.queuetab q).length ≤ 100 :=
  hI.queues.length_le hq

/-- Ready processes are listed. -/
theorem Inv.mem_readylist (hI : Inv w g EMPTY s) {p : Int}
    (hp : (s.proctab p).prstate = .ready) (hlimbo : ¬ g.limbo p) :
    p ∈ lists s.queuetab readylist := by
  refine (hI.mem_iff readylist p).mpr ⟨home_ready hp, hI.ne_empty (home_ready hp), hlimbo, ?_⟩
  intro h
  have h1 := (hI.lost p h).2
  rw [hp] at h1
  cases h1

/-- When no process runs, the null process is ready. -/
theorem Inv.readylist_ne_nil (hI : Inv w g EMPTY s)
    (hcur : (s.proctab s.currpid).prstate ≠ .curr) :
    lists s.queuetab readylist ≠ [] := by
  have hready : (s.proctab NULLPROC).prstate = .ready := by
    rcases hI.null_state with h | h
    · have h1 := hI.curr_unique _ h
      rw [h1] at h
      exact absurd h hcur
    · exact h
  have hmem := hI.mem_readylist hready (fun h => (hI.limbo _ h).2.1 rfl)
  exact List.ne_nil_of_mem hmem

theorem Inv.setCurr (hI : Inv w g x s) (hx : ValidPid x)
    (hno : ∀ p, (s.proctab p).prstate ≠ .curr) : Inv w g x (s.setCurrpid x) :=
  { hI with
    valid_curr := hx
    curr_unique := fun p hp => absurd hp (hno p) }

theorem quiet_setPreempt (s : Xinu) (n : Nat) : Quiet s (s.setPreempt n) :=
  ⟨rfl, fun _ => rfl, fun _ => rfl, fun _ => rfl, fun _ => rfl, rfl, rfl, fun _ => rfl,
    rfl, rfl, rfl, rfl, rfl⟩

theorem setProc_prprio (s : Xinu) (x p : Int) {f : Procent → Procent}
    (hf : ∀ e, (f e).prprio = e.prprio) :
    ((s.setProc x f).proctab p).prprio = (s.proctab p).prprio := by
  show (upd s.proctab x (f (s.proctab x)) p).prprio = _
  rw [upd_apply]
  split
  · rename_i hp
    rw [hf, hp]
  · rfl

theorem setProc_self (s : Xinu) (x : Int) (f : Procent → Procent) :
    (s.setProc x f).proctab x = f (s.proctab x) := upd_self

theorem setProc_of_ne (s : Xinu) {x p : Int} (f : Procent → Procent) (h : p ≠ x) :
    (s.setProc x f).proctab p = s.proctab p := upd_of_ne h

/-- The process in transit starts to run. -/
theorem run_ok (hI : Inv w g x s) (hx : s.currpid = x) (hlive : (s.proctab x).prstate ≠ .free)
    (htop : w.keys → ∀ p ∈ lists s.queuetab readylist,
      (s.proctab p).prprio ≤ (s.proctab x).prprio) :
    Ok w g (s.setProc x fun e => { e with prstate := .curr }) := by
  have hcurr : ((s.setProc x fun e => { e with prstate := .curr }).proctab x).prstate =
      .curr := by rw [setProc_self]
  have hprio : ∀ r, ((s.setProc x fun e => { e with prstate := .curr }).proctab r).prprio =
      (s.proctab r).prprio := fun r => setProc_prprio s x r (fun _ => rfl)
  refine ⟨?_, ?_, ?_⟩
  · apply Inv.close_hole (x := x)
    · apply hI.setProc
      · exact iff_of_true (fun h => by cases h) hlive
      · exact fun _ => hx.symm
      · intro r hr
        rw [home_curr rfl] at hr
        cases hr
      · exact fun h => by cases h
      · exact fun _ => Or.inl rfl
    · exact home_curr hcurr
  · show ((s.setProc x _).proctab s.currpid).prstate = .curr
    rw [hx]
    exact hcurr
  · intro hw _ p hp
    show _ ≤ ((s.setProc x _).proctab s.currpid).prprio
    rw [hprio, hprio, hx]
    exact htop hw p hp

/-- Taking the first ready process off the ready list. -/
theorem dequeueReady (hI : Inv w g EMPTY s) (hcur : (s.proctab s.currpid).prstate ≠ .curr) :
    ∃ p t, s.dequeue readylist = (p, s.setQueuetab t) ∧ (s.proctab p).prstate ≠ .free ∧
      Inv w g p (((s.setQueuetab t).setCurrpid p).setReadycount
        (uint16 (((s.setQueuetab t).setCurrpid p).readycount - 1))) ∧
      (w.keys → ∀ r ∈ lists t readylist, (s.proctab r).prprio ≤ (s.proctab p).prprio) := by
  cases hL : lists s.queuetab readylist with
  | nil => exact absurd hL (hI.readylist_ne_nil hcur)
  | cons p l =>
      have hno : ∀ r, (s.proctab r).prstate ≠ .curr := by
        intro r hr
        have h1 := hI.curr_unique r hr
        rw [h1] at hr
        exact hcur hr
      have hp : p ∈ lists s.queuetab readylist := by
        rw [hL]
        exact List.mem_cons_self
      have hhome := ((hI.mem_iff readylist p).mp hp).1
      have hv := (hI.home_queue p readylist hhome).1
      have hlen : l.length + 1 ≤ 100 := by
        have h1 := hI.length_le isQueue_readylist
        rw [hL, List.length_cons] at h1
        exact h1
      rcases Xinu.dequeue_cons hI.queues isQueue_readylist hL with ⟨t, ht, hQ, hk⟩
      have hl : lists t readylist = l := by
        rw [hQ.lists_upd isQueue_readylist, upd_self]
      have hrem : Inv w.uncount g p (s.setQueuetab t) := by
        apply hI.uncount.remove hp (fun h => absurd h id) (fun _ h => by cases h) _ hk
        · exact hI.lists_upd_ready
        · rw [hL, List.erase_cons_head]
          exact hQ
      refine ⟨p, t, ht, ?_, ?_, ?_⟩
      · intro hfree
        rw [home_free hfree] at hhome
        cases hhome
      · apply ((hrem.setCurr hv hno).setReadycount _).recount
        intro hw
        show uint16 ((s.readycount : Int) - 1) = (lists t readylist).length
        rw [hl, hI.count hw, hL, List.length_cons]
        exact uint16_pred hlen
      · intro hw r hr
        rw [hl] at hr
        have hrL : r ∈ lists s.queuetab readylist := by
          rw [hL]
          exact List.mem_cons_of_mem p hr
        have hdesc := hI.descending hw
        rw [hL] at hdesc
        have hle := hdesc.le_head (List.mem_cons_of_mem p hr)
        have h1 := hI.keys hw r hrL
        have h2 := hI.keys hw p hp
        omega

/-- Giving the processor to the first ready process. -/
theorem dispatch_ok (hI : Inv w g EMPTY s)
    (hcur : (s.proctab s.currpid).prstate ≠ .curr) : Ok w g s.dispatch := by
  rcases dequeueReady hI hcur with ⟨p, t, ht, hlive, hset, htop⟩
  unfold Xinu.dispatch
  rw [ht]
  dsimp only
  generalize hs₀ : ((s.setQueuetab t).setCurrpid p).setReadycount
    (uint16 (((s.setQueuetab t).setCurrpid p).readycount - 1)) = s₀ at hset ⊢
  have hcp₀ : s₀.currpid = p := by
    rw [← hs₀]
    rfl
  have hlive₀ : (s₀.proctab p).prstate ≠ .free := by
    rw [← hs₀]
    exact hlive
  have hq := quiet_recordCpuqdata s₀ p
  have hcp : (s₀.recordCpuqdata p).currpid = p := hq.currpid.trans hcp₀
  rw [hcp₀, hcp]
  rw [← hq.prstate] at hlive₀
  refine (run_ok (hset.quiet hq) hcp hlive₀ ?_).quiet (quiet_setPreempt _ _)
  intro hw r hr
  rw [hq.queuetab, ← hs₀] at hr
  rw [hq.prprio, hq.prprio, ← hs₀]
  exact htop hw r hr

/-- The invariant when the process in transit is counted as ready already. -/
structure Counted (w : Watch) (g : View) (x : Int) (s : Xinu) : Prop where
  inv : Inv w.uncount g x s
  ready : (s.proctab x).prstate = .ready
  count : w.count → s.readycount = (lists s.queuetab readylist).length + 1

theorem Counted.of_ready (hI : Inv w g x s) (hx : (s.proctab x).prstate = .ready) :
    Counted w g x (s.setReadycount (uint16 (s.readycount + 1))) where
  inv := hI.uncount.setReadycount _
  ready := hx
  count := by
    intro hw
    show uint16 ((s.readycount : Int) + 1) = (lists s.queuetab readylist).length + 1
    rw [hI.count hw]
    exact uint16_succ (hI.length_le isQueue_readylist)

theorem Counted.quiet {s' : Xinu} (hC : Counted w g x s) (h : Quiet s s') :
    Counted w g x s' where
  inv := hC.inv.quiet h
  ready := (h.prstate x).trans hC.ready
  count := by
    rw [h.readycount, h.queuetab]
    exact hC.count

theorem Counted.setPrprio (hC : Counted w g x s) (prio : Int) :
    Counted w g x (s.setProc x fun e => { e with prprio := prio }) where
  inv := by
    apply hC.inv.setProc Iff.rfl
    · intro h
      rw [hC.ready] at h
      cases h
    · intro q hq
      rw [home_ready (by exact hC.ready)] at hq
      cases hq
      exact hC.inv.home_queue x readylist (home_ready hC.ready)
    · intro h
      rw [hC.ready] at h
      cases h
    · exact fun _ => Or.inr hC.ready
  ready := by
    rw [setProc_self]
    exact hC.ready
  count := hC.count

/-- The counted process joins the ready list. -/
theorem Counted.insert (hC : Counted w g x s) (hprio : 0 ≤ (s.proctab x).prprio) :
    ∃ t, s.insert x readylist (s.proctab x).prprio = s.setQueuetab t ∧
      Inv w g EMPTY (s.setQueuetab t) := by
  rcases hC.inv.insertReady hC.ready hprio hC.count with ⟨t, ht, _, hInv⟩
  exact ⟨t, ht, hInv⟩

theorem Inv.setReady (hI : Inv w g x s) (hv : ValidPid x)
    (hlive : (s.proctab x).prstate ≠ .free) :
    Inv w g x (s.setProc x fun e => { e with prstate := .ready }) := by
  apply hI.setProc
  · exact iff_of_true (fun h => by cases h) hlive
  · intro h
    cases h
  · intro r hr
    rw [home_ready rfl] at hr
    cases hr
    exact ⟨hv, isQueue_readylist⟩
  · exact fun h => by cases h
  · exact fun _ => Or.inr rfl

/-- The running process goes back to the ready list. -/
theorem requeue_inv {old : Int} (hI : Inv w g old s) (hold : s.currpid = old)
    (hlive : (s.proctab old).prstate ≠ .free)
    (hprio : 0 ≤ (s.proctab old).prprio) :
    ∃ t, (((s.setProc old fun e => { e with prstate := .ready }).setReadycount
        (uint16 ((s.setProc old fun e => { e with prstate := .ready }).readycount + 1))).insert
          old readylist
          (((s.setProc old fun e => { e with prstate := .ready }).setReadycount
            (uint16 ((s.setProc old fun e =>
              { e with prstate := .ready }).readycount + 1))).proctab old).prprio) =
        Xinu.setQueuetab ((s.setProc old fun e => { e with prstate := .ready }).setReadycount
          (uint16 ((s.setProc old fun e => { e with prstate := .ready }).readycount + 1))) t ∧
      Inv w g EMPTY (Xinu.setQueuetab
        ((s.setProc old fun e => { e with prstate := .ready }).setReadycount
          (uint16 ((s.setProc old fun e => { e with prstate := .ready }).readycount + 1))) t) ∧
      ((s.setProc old fun e => { e with prstate := .ready }).proctab s.currpid).prstate ≠
        .curr := by
  have hset := hI.setReady (hold ▸ hI.valid_curr) hlive
  have hself := setProc_self s old fun e => { e with prstate := .ready }
  have hcp : (s.setProc old fun e => { e with prstate := .ready }).currpid = s.currpid := rfl
  generalize (s.setProc old fun e => { e with prstate := .ready }) = s₁ at hset hself hcp ⊢
  have hready : (s₁.proctab old).prstate = .ready := by rw [hself]
  have hprio₁ : 0 ≤ (s₁.proctab old).prprio := by
    rw [hself]
    exact hprio
  rcases (Counted.of_ready hset hready).insert hprio₁ with ⟨t, ht, hInv⟩
  refine ⟨t, ht, hInv, ?_⟩
  rw [hold, hready]
  exact fun h => by cases h

theorem requeue_ok {old : Int} (hI : Inv w g old s) (hold : s.currpid = old)
    (hlive : (s.proctab old).prstate ≠ .free)
    (hprio : 0 ≤ (s.proctab old).prprio) :
    Ok w g (Xinu.dispatch
      (((s.setProc old fun e => { e with prstate := .ready }).setReadycount
        (uint16 ((s.setProc old fun e => { e with prstate := .ready }).readycount + 1))).insert
          old readylist
          (((s.setProc old fun e => { e with prstate := .ready }).setReadycount
            (uint16 ((s.setProc old fun e =>
              { e with prstate := .ready }).readycount + 1))).proctab old).prprio)) := by
  rcases requeue_inv hI hold hlive hprio with ⟨t, ht, hInv, hcurr⟩
  rw [ht]
  exact dispatch_ok hInv hcurr

theorem Inv.setDefer (hI : Inv w g x s) (d : Defer) :
    Inv w (g.setDefers d.ndefers) x (s.setDefer d) :=
  { hI with defers := rfl }

/-- The priorities of ready processes are bounded by the first key. -/
theorem Inv.le_firstkey (hI : Inv w g x s) (hw : w.keys) {p : Int}
    (hp : p ∈ lists s.queuetab readylist) :
    (s.proctab p).prprio ≤ s.firstkey readylist := by
  cases hL : lists s.queuetab readylist with
  | nil => simp [hL] at hp
  | cons r l =>
      have hfirst : s.firstid readylist = r := hI.queues.firstid_cons isQueue_readylist hL
      have hdesc := hI.descending hw
      have hkey := hI.keys hw p hp
      rw [hL] at hdesc hp
      have hle := hdesc.le_head hp
      unfold Xinu.firstkey
      rw [hfirst]
      omega

theorem resched_ok (hI : Inv w g EMPTY s)
    (h : g.defers ≤ 0 ∨ (s.proctab s.currpid).prstate = .curr) : Ok w g s.resched := by
  unfold Xinu.resched
  split
  · rename_i hdefer
    have hpos : 0 < g.defers := hI.defers ▸ hdefer
    have hcurr := h.resolve_left (by omega)
    refine ⟨?_, hcurr, ?_⟩
    · have h1 := hI.setDefer { s.defer with attempt := true }
      rw [hI.defers] at h1
      exact h1
    · intro _ ht
      rcases ht with ht | ht
      · omega
      · cases ht
  · dsimp only
    split
    · rename_i hcurr
      have hbad : ¬ s.isbadpid s.currpid := by
        rw [Xinu.not_isbadpid_iff, hcurr]
        exact ⟨hI.valid_curr, by decide⟩
      have hnonneg := setprio_nonneg hbad
      have hq := quiet_setprio s s.currpid
      generalize (s.setprio s.currpid).1 = prio at hnonneg ⊢
      have hI₀ := hI.quiet hq
      have hcurr₀ := (hq.prstate s.currpid).trans hcurr
      have hcp₀ := hq.currpid
      generalize (s.setprio s.currpid).2 = s₀ at hI₀ hcurr₀ hcp₀ ⊢
      generalize s.currpid = old at hcurr₀ hcp₀ ⊢
      have hI₁ : Inv w g old (s₀.setProc old fun e => { e with prprio := prio }) := by
        apply (hI₀.open_hole (home_curr hcurr₀)).setProc Iff.rfl
        · exact fun _ => hcp₀.symm
        · intro q hhome
          rw [home_curr (by exact hcurr₀)] at hhome
          cases hhome
        · intro hwait
          rw [hcurr₀] at hwait
          cases hwait
        · exact fun _ => Or.inl hcurr₀
      have hself := setProc_self s₀ old fun e => { e with prprio := prio }
      have hcp₁ : (s₀.setProc old fun e => { e with prprio := prio }).currpid = old := hcp₀
      generalize (s₀.setProc old fun e => { e with prprio := prio }) = s₁ at hI₁ hself hcp₁ ⊢
      have hcurr₁ : (s₁.proctab old).prstate = .curr := by
        rw [hself]
        exact hcurr₀
      split
      · rename_i hkey
        refine ⟨hI₁.close_hole (home_curr hcurr₁), hcp₁.symm ▸ hcurr₁, ?_⟩
        intro hw _ p hp
        have hle := hI₁.le_firstkey hw hp
        rw [hcp₁]
        omega
      · have hq₂ := quiet_recordCpuqdata s₁ old
        apply requeue_ok (hI₁.quiet hq₂) (hq₂.currpid.trans hcp₁)
        · rw [hq₂.prstate, hcurr₁]
          exact fun h => by cases h
        · rw [hq₂.prprio, hself]
          exact hnonneg
    · rename_i hcurr
      exact dispatch_ok hI hcurr

/-- Making the process in transit ready, up to the call of {lit}`resched`. -/
theorem ready_inv (hI : Inv w g x s) (hcurr : (s.proctab s.currpid).prstate = .curr)
    (hne : s.currpid ≠ x) (hx : ¬ s.isbadpid x) :
    ∃ s₂ t, s₂ = ((s.recordCpuqdata x).setProc x fun e =>
          { e with prstate := .ready }).setReadycount
        (uint16 (((s.recordCpuqdata x).setProc x fun e =>
          { e with prstate := .ready }).readycount + 1)) ∧
      s.ready x = (Xinu.setQueuetab ((s₂.setprio x).2.setProc x fun e =>
        { e with prprio := (s₂.setprio x).1 }) t).resched ∧
      Inv w g EMPTY (Xinu.setQueuetab ((s₂.setprio x).2.setProc x fun e =>
        { e with prprio := (s₂.setprio x).1 }) t) ∧
      (((s₂.setprio x).2.setProc x fun e =>
        { e with prprio := (s₂.setprio x).1 }).proctab
          (s₂.setprio x).2.currpid).prstate = .curr := by
  unfold Xinu.ready
  rw [if_neg hx]
  dsimp only
  have hv : ValidPid x := (Xinu.not_isbadpid_iff.mp hx).1
  have hq₀ := quiet_recordCpuqdata s x
  have hI₀ := hI.quiet hq₀
  have hcurr₀ : ((s.recordCpuqdata x).proctab (s.recordCpuqdata x).currpid).prstate =
      .curr := by rw [hq₀.currpid, hq₀.prstate, hcurr]
  have hne₀ : (s.recordCpuqdata x).currpid ≠ x := by rw [hq₀.currpid]; exact hne
  have hlive₀ : ((s.recordCpuqdata x).proctab x).prstate ≠ .free := by
    rw [hq₀.prstate]
    exact (Xinu.not_isbadpid_iff.mp hx).2
  generalize s.recordCpuqdata x = s₀ at hI₀ hcurr₀ hne₀ hlive₀ ⊢
  have hI₁ := hI₀.setReady hv hlive₀
  have hready₁ : ((s₀.setProc x fun e => { e with prstate := .ready }).proctab x).prstate =
      .ready := by rw [setProc_self]
  have hcurr₁ := (congrArg Procent.prstate (setProc_of_ne s₀
    (fun e => { e with prstate := .ready }) hne₀)).trans hcurr₀
  have hcp₁ : (s₀.setProc x fun e => { e with prstate := .ready }).currpid = s₀.currpid := rfl
  generalize (s₀.setProc x fun e => { e with prstate := .ready }) = s₁ at hI₁ hready₁ hcurr₁ hcp₁ ⊢
  rw [← hcp₁] at hcurr₁ hne₀
  have hC := Counted.of_ready hI₁ hready₁
  have hcurr₂ : ((s₁.setReadycount (uint16 (s₁.readycount + 1))).proctab
      (s₁.setReadycount (uint16 (s₁.readycount + 1))).currpid).prstate = .curr := hcurr₁
  have hne₂ : (s₁.setReadycount (uint16 (s₁.readycount + 1))).currpid ≠ x := hne₀
  refine ⟨s₁.setReadycount (uint16 (s₁.readycount + 1)), ?_⟩
  generalize s₁.setReadycount (uint16 (s₁.readycount + 1)) = s₂ at hC hcurr₂ hne₂ ⊢
  have hbad : ¬ s₂.isbadpid x := by
    rw [Xinu.not_isbadpid_iff, hC.ready]
    exact ⟨hv, by decide⟩
  have hnonneg := setprio_nonneg hbad
  have hq₃ := quiet_setprio s₂ x
  have hC₃ := (hC.quiet hq₃).setPrprio (s₂.setprio x).1
  have hprio₃ : 0 ≤ (((s₂.setprio x).2.setProc x fun e =>
      { e with prprio := (s₂.setprio x).1 }).proctab x).prprio := by
    rw [setProc_self]
    exact hnonneg
  rcases hC₃.insert hprio₃ with ⟨t, ht, hInv⟩
  refine ⟨t, rfl, ?_, hInv, ?_⟩
  · rw [ht]
  · rw [hq₃.currpid, setProc_of_ne _ _ hne₂, hq₃.prstate]
    exact hcurr₂

/-- Making the process in transit ready. -/
theorem ready_ok (hI : Inv w g x s) (hcurr : (s.proctab s.currpid).prstate = .curr)
    (hne : s.currpid ≠ x) (hx : ¬ s.isbadpid x) : Ok w g (s.ready x) := by
  rcases ready_inv hI hcurr hne hx with ⟨s₂, t, _, hready, hInv, hcurr₂⟩
  rw [hready]
  exact resched_ok hInv (Or.inr hcurr₂)

theorem ready_bad (hx : s.isbadpid x) : s.ready x = s := if_pos hx

theorem isbadpid_empty (s : Xinu) : s.isbadpid EMPTY := Or.inl (by decide)

/-!
## Deferral
-/

theorem reschedCntl_start (s : Xinu) : s.reschedCntl DEFER_START = s.deferStart := rfl

theorem reschedCntl_stop (s : Xinu) : s.reschedCntl DEFER_STOP = s.deferStop := rfl

theorem deferStart_ok (hO : Ok w g s) (hd : g.defers = 0) :
    Ok w (g.setDefers 1) (s.reschedCntl DEFER_START) := by
  have hzero : s.defer.ndefers = 0 := hO.inv.defers.trans hd
  rw [reschedCntl_start]
  unfold Xinu.deferStart
  rw [if_pos hzero, hzero]
  have hone : int32 (0 + 1) = 1 := by decide
  have hI := hO.inv.setDefer { ndefers := int32 (0 + 1), attempt := false }
  rw [hone] at hI
  exact ⟨hI, hO.curr, fun hw _ => hO.top hw (Or.inl hd)⟩

theorem deferStop_ok (hO : Ok w g s) (hd : g.defers = 1) :
    Ok w (g.setDefers 0) (s.reschedCntl DEFER_STOP) := by
  have hone : s.defer.ndefers = 1 := hO.inv.defers.trans hd
  rw [reschedCntl_stop]
  unfold Xinu.deferStop
  rw [if_neg (by omega), hone]
  dsimp only
  have hI := hO.inv.setDefer { ndefers := 1 - 1, attempt := s.defer.attempt }
  split
  · exact resched_ok hI (Or.inl (Int.le_refl 0))
  · rename_i hattempt
    refine ⟨hI, hO.curr, fun hw _ => hO.top hw (Or.inr ?_)⟩
    have hne : s.defer.attempt ≠ true := fun h => hattempt ⟨rfl, h⟩
    simpa using hne

/-!
## Releasing the first process of a queue
-/

theorem release_ok {pid : Int} {l : List Int} {t : Int → Qentry}
    (hO : Ok w g s) (hL : g.lists q = pid :: l) (hr : q ≠ readylist)
    (hd : w.delays → q = sleepq → Delta (fun p => (s.queuetab p).qkey) g.due 0 l)
    (hQ : Queues t (upd (lists s.queuetab) q l))
    (hk : ∀ i, (t i).qkey = (s.queuetab i).qkey) :
    Ok w (g.setList q l) ((s.setQueuetab t).ready pid) := by
  rw [← hO.inv.lists_eq q hr] at hL
  have hp : pid ∈ lists s.queuetab q := by
    rw [hL]
    exact List.mem_cons_self
  have herase : (lists s.queuetab q).erase pid = l := by rw [hL, List.erase_cons_head]
  have hhome := ((hO.inv.mem_iff q pid).mp hp).1
  have hI : Inv w (g.setList q l) pid (s.setQueuetab t) := by
    apply hO.inv.remove hp (fun _ => hr) _ _ hk _
    · rw [herase]
      exact hd
    · rw [herase]
      exact hQ
    · rw [herase]
      exact hO.inv.lists_upd
  apply ready_ok hI hO.curr
  · show s.currpid ≠ pid
    rintro rfl
    rw [home_curr hO.curr] at hhome
    cases hhome
  · show ¬ s.isbadpid pid
    rw [Xinu.not_isbadpid_iff]
    refine ⟨(hO.inv.home_queue pid q hhome).1, ?_⟩
    intro hfree
    rw [home_free hfree] at hhome
    cases hhome

/-- The view after the first process of a queue, if any, was released. -/
def View.pop (g : View) (q : Int) : View := g.setList q (g.lists q).tail

theorem View.pop_nil (h : g.lists q = []) : g.pop q = g := by
  unfold View.pop View.setList
  rw [h]
  show g.setLists (upd g.lists q []) = g
  rw [upd_eq_self h]
  rfl

/-- The first process of a queue of waiting processes, if any, becomes ready. -/
theorem readyDequeue_ok (hO : Ok w g s) (hq : IsQueue q) (hr : q ≠ readylist)
    (hs : q ≠ sleepq) : Ok w (g.pop q) (s.readyDequeue q) := by
  unfold Xinu.readyDequeue
  have heq := hO.inv.lists_eq q hr
  cases hL : g.lists q with
  | nil =>
      rw [Xinu.dequeue_nil hO.inv.queues hq (heq.trans hL), ready_bad (isbadpid_empty s),
        View.pop_nil hL]
      exact hO
  | cons pid l =>
      rcases Xinu.dequeue_cons hO.inv.queues hq (heq.trans hL) with ⟨t, ht, hQ, hk⟩
      rw [ht]
      unfold View.pop
      rw [hL]
      exact release_ok hO hL hr (fun _ h => absurd h hs) hQ hk

/-- The same through {lit}`getfirst`, which leaves the links of the process. -/
theorem readyGetfirst_ok (hO : Ok w g s) (hq : IsQueue q) (hr : q ≠ readylist)
    (hs : q ≠ sleepq) : Ok w (g.pop q) ((s.getfirst q).2.ready (s.getfirst q).1) := by
  have heq := hO.inv.lists_eq q hr
  cases hL : g.lists q with
  | nil =>
      rw [Xinu.getfirst_nil hO.inv.queues hq (heq.trans hL), ready_bad (isbadpid_empty s),
        View.pop_nil hL]
      exact hO
  | cons pid l =>
      rcases Xinu.getfirst_cons hO.inv.queues hq (heq.trans hL) with ⟨t, ht, hQ, hk⟩
      rw [ht]
      unfold View.pop
      rw [hL]
      exact release_ok hO hL hr (fun _ h => absurd h hs) hQ hk

end

end BbbXinu
