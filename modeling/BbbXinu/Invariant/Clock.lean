import BbbXinu.Invariant.Sleep

/-!
# Leaving the sleep queue and the clock tick
-/

namespace BbbXinu

open LinkedLists KeyedLists

section

variable {w : Watch} {g : View} {x q : Int} {s : Xinu}

/-!
## Leaving early
-/

/-- {lit}`unsleep` takes a sleeper in hand and keeps the due times of the
others. -/
theorem unsleep_inv (hI : Inv w g EMPTY s) {p : Int} (hbound : w.delays → g.Bounded)
    (hp : (s.proctab p).prstate = .sleep ∨ (s.proctab p).prstate = .rectim) :
    ∃ t, s.unsleep p = s.setQueuetab t ∧
      Inv w (g.setList sleepq ((g.lists sleepq).erase p)) p (s.setQueuetab t) := by
  have hmem : p ∈ lists s.queuetab sleepq := by
    rw [hI.lists_sleepq]
    exact hI.mem_sleepq hp
  have hbad : ¬ s.isbadpid p := by
    rw [Xinu.not_isbadpid_iff]
    refine ⟨hI.queues.node isQueue_sleepq hmem, ?_⟩
    intro h
    rcases hp with hp | hp <;> simp [hp] at h
  have hstate : ¬ ((s.proctab p).prstate ≠ .sleep ∧ (s.proctab p).prstate ≠ .rectim) := by
    intro h
    rcases hp with hp | hp
    · exact h.1 hp
    · exact h.2 hp
  rcases List.append_of_mem hmem with ⟨l₁, l₂, hsplit⟩
  have hnd : (lists s.queuetab sleepq).Nodup := hI.queues.nodup isQueue_sleepq
  rw [hsplit] at hnd
  have hpl₁ : p ∉ l₁ := fun h => List.disjoint_of_nodup_append hnd h (by simp)
  have hpl₂ : p ∉ l₂ := (List.nodup_cons.mp hnd.of_append_right).1
  have herase : (lists s.queuetab sleepq).erase p = l₁ ++ l₂ := by
    rw [hsplit, List.erase_append_right _ hpl₁, List.erase_cons_head]
  have hnext := (hI.queues.neighbours isQueue_sleepq hsplit).2
  -- the key of the following sleeper is raised first
  have hfirst : ∃ s₁, Inv w.undelay g EMPTY s₁ ∧ s₁ = s.setQueuetab s₁.queuetab ∧
      lists s₁.queuetab = lists s.queuetab ∧
      (∀ i, (s₁.queuetab i).qkey = if l₂.head? = some i then
        int32 ((s.queuetab i).qkey + (s.queuetab p).qkey) else (s.queuetab i).qkey) ∧
      s.unsleep p = s₁.getitem p := by
    unfold Xinu.unsleep
    rw [if_neg hbad, if_neg hstate]
    dsimp only at hnext ⊢
    rw [hnext]
    cases l₂ with
    | nil =>
        rw [headOr_nil, if_neg (by decide)]
        exact ⟨s, hI.undelay, rfl, rfl, fun i => by simp, rfl⟩
    | cons y l =>
        have hy : y ∈ lists s.queuetab sleepq := by
          rw [hsplit]
          simp
        have hv : ValidPid y := hI.queues.node isQueue_sleepq hy
        rw [headOr_cons, if_pos hv.2]
        rcases hI.undelay.rekey (f := fun e =>
          { e with qkey := int32 (e.qkey + (s.queuetab p).qkey) }) hy (fun _ => rfl)
          (fun _ => rfl) with ⟨hI₁, hl₁⟩
        refine ⟨_, hI₁, rfl, hl₁, ?_, rfl⟩
        intro i
        show (upd s.queuetab y _ i).qkey = _
        rw [upd_apply]
        by_cases hi : i = y
        · simp [hi]
        · simp [hi, Ne.symm hi]
  rcases hfirst with ⟨s₁, hI₁, hs₁, hl₁, hk₁, hrun⟩
  rw [← hl₁] at hmem herase
  rcases Xinu.getitem_spec hI₁.queues isQueue_sleepq hmem with ⟨t, ht, hQ, hk⟩
  have hrem : Inv w.undelay (g.setList sleepq ((g.lists sleepq).erase p)) p
      (s₁.setQueuetab t) := by
    apply hI₁.remove hmem (fun _ => by decide) (fun h => absurd h id) hQ hk
    rw [hI₁.lists_sleepq]
    exact hI₁.lists_upd
  have hstates : s₁.setQueuetab t = s.setQueuetab t := by
    rw [hs₁]
    rfl
  refine ⟨t, ?_, ?_⟩
  · rw [hrun, ht, hstates]
  · rw [hstates] at hrem
    apply hrem.redelay
    intro hw
    show Delta (fun p => (t p).qkey) g.due 0 (lists t sleepq)
    rw [hQ.lists_upd isQueue_sleepq, upd_self, herase]
    have hdelta := hI.delta hw
    rw [hsplit] at hdelta
    apply hdelta.remove hnd
    · intro y hy
      rw [hk, hk₁, if_neg]
      intro hh
      exact List.disjoint_of_nodup_append hnd hy
        (List.mem_cons_of_mem p (List.mem_of_mem_head? hh))
    · intro y hy
      rw [hk, hk₁]
      split
      · rename_i hh
        have hb := hbound hw y (by
          rw [← hI.lists_sleepq, hsplit]
          simp [hy])
        cases l₂ with
        | nil => simp at hy
        | cons z l =>
            simp only [List.head?_cons, Option.some.injEq] at hh
            subst hh
            rcases delta_append.mp hdelta with ⟨h1, h2, h3, h4, h5, _⟩
            have h6 := h1.start_le_end
            dsimp only at h2 h4
            apply int32_eq
            · omega
            · omega
      · rfl

/-!
## Waking up
-/

/-- The process is running or ready to run. -/
def Xinu.Alive (s : Xinu) (p : Int) : Prop :=
  (s.proctab p).prstate = .ready ∨ (s.proctab p).prstate = .curr

theorem alive_quiet {s' : Xinu} {p : Int} (h : Quiet s s') (hp : s.Alive p) : s'.Alive p := by
  unfold Xinu.Alive
  rw [h.prstate]
  exact hp

theorem alive_setProc {f : Procent → Procent} {p : Int} (x : Int)
    (hf : ∀ e, (f e).prstate = .ready ∨ (f e).prstate = .curr ∨ (f e).prstate = e.prstate)
    (hp : s.Alive p) : (s.setProc x f).Alive p := by
  unfold Xinu.Alive
  by_cases hpx : p = x
  · rw [hpx] at hp ⊢
    rw [setProc_self]
    rcases hf (s.proctab x) with h | h | h
    · exact Or.inl h
    · exact Or.inr h
    · rw [h]
      exact hp
  · rw [setProc_of_ne _ _ hpx]
    exact hp

theorem insert_proctab (s : Xinu) (pid q key : Int) :
    (s.insert pid q key).proctab = s.proctab := by
  unfold Xinu.insert
  split <;> rfl

theorem dequeue_proctab (s : Xinu) (q : Int) : (s.dequeue q).2.proctab = s.proctab := by
  unfold Xinu.dequeue Xinu.getfirst
  split
  · rfl
  · split
    · rfl
    · rfl

theorem alive_dispatch {p : Int} (hp : s.Alive p) : s.dispatch.Alive p := by
  unfold Xinu.dispatch
  dsimp only
  apply alive_quiet (quiet_setPreempt _ _)
  apply alive_setProc
  · exact fun _ => Or.inr (Or.inl rfl)
  · apply alive_quiet (quiet_recordCpuqdata _ _)
    show ((s.dequeue readylist).2.proctab p).prstate = _ ∨
      ((s.dequeue readylist).2.proctab p).prstate = _
    rw [dequeue_proctab]
    exact hp

theorem alive_resched {p : Int} (hp : s.Alive p) : s.resched.Alive p := by
  unfold Xinu.resched
  split
  · exact hp
  · dsimp only
    split
    · have h₁ : Xinu.Alive ((s.setprio s.currpid).2.setProc s.currpid fun e =>
          { e with prprio := (s.setprio s.currpid).1 }) p := by
        apply alive_setProc
        · exact fun _ => Or.inr (Or.inr rfl)
        · exact alive_quiet (quiet_setprio _ _) hp
      split
      · exact h₁
      · apply alive_dispatch
        unfold Xinu.Alive
        rw [insert_proctab]
        apply alive_setProc (f := fun e => { e with prstate := .ready })
        · exact fun _ => Or.inl rfl
        · exact alive_quiet (quiet_recordCpuqdata _ _) h₁
    · exact alive_dispatch hp

/-- {lit}`ready` makes its process ready and stops no other. -/
theorem alive_ready {p : Int} (hx : ¬ s.isbadpid x) (hp : p = x ∨ s.Alive p) :
    (s.ready x).Alive p := by
  unfold Xinu.ready
  rw [if_neg hx]
  dsimp only
  apply alive_resched
  unfold Xinu.Alive
  rw [insert_proctab]
  have h₁ : ((s.recordCpuqdata x).setProc x fun e => { e with prstate := .ready }).Alive p := by
    rcases hp with hp | hp
    · left
      rw [hp, setProc_self]
    · apply alive_setProc
      · exact fun _ => Or.inl rfl
      · exact alive_quiet (quiet_recordCpuqdata _ _) hp
  apply alive_setProc (f := fun e => { e with prprio := _ })
  · exact fun _ => Or.inr (Or.inr rfl)
  · exact alive_quiet (quiet_setprio _ _) h₁

theorem View.setList_at (g : View) (q : Int) (l : List Int) : (g.setList q l).lists q = l := by
  show upd g.lists q l q = l
  exact upd_self

theorem View.setList_self (g : View) (q : Int) : g.setList q (g.lists q) = g := by
  unfold View.setList
  rw [upd_eq_self rfl]
  rfl

theorem View.setList_setList (g : View) (q : Int) (l l' : List Int) :
    (g.setList q l).setList q l' = g.setList q l' := by
  unfold View.setList View.setLists
  rw [upd_upd]

/-- The first sleeper wakes when its due time has come. -/
theorem wakeFirst_ok (hO : Ok w g s) {p : Int} {l : List Int} (hL : g.lists sleepq = p :: l)
    (hkey : s.firstkey sleepq ≤ 0) :
    Ok w (g.setList sleepq l) (s.readyDequeue sleepq) ∧ (w.delays → g.due p ≤ 0) ∧
      (s.readyDequeue sleepq).Alive p ∧ ∀ r, s.Alive r → (s.readyDequeue sleepq).Alive r := by
  have hL' : lists s.queuetab sleepq = p :: l := hO.inv.lists_sleepq.trans hL
  have hfirst : s.firstid sleepq = p := hO.inv.queues.firstid_cons isQueue_sleepq hL'
  have hp : p ∈ lists s.queuetab sleepq := by
    rw [hL']
    exact List.mem_cons_self
  have hhome := ((hO.inv.mem_iff sleepq p).mp hp).1
  have hkeyp : (s.queuetab p).qkey ≤ 0 := by
    unfold Xinu.firstkey at hkey
    rw [hfirst] at hkey
    exact hkey
  have hdue : w.delays → g.due p ≤ 0 := by
    intro hw
    have h1 := hO.inv.delta hw
    rw [hL'] at h1
    have h2 := h1.1
    dsimp only at h2
    omega
  rcases Xinu.dequeue_cons hO.inv.queues isQueue_sleepq hL' with ⟨t, ht, hQ, hk⟩
  unfold Xinu.readyDequeue
  rw [ht]
  have hbad : ¬ (s.setQueuetab t).isbadpid p := by
    rw [Xinu.not_isbadpid_iff]
    refine ⟨(hO.inv.home_queue p sleepq hhome).1, ?_⟩
    intro hfree
    rw [home_free (by exact hfree)] at hhome
    cases hhome
  refine ⟨?_, hdue, alive_ready hbad (Or.inl rfl), fun r hr => alive_ready hbad (Or.inr hr)⟩
  apply release_ok hO hL (by decide) _ hQ hk
  intro hw _
  have h1 := hO.inv.delta hw
  have h2 := hdue hw
  rw [hL'] at h1
  rcases h1 with ⟨_, h3, h4⟩
  have hzero : g.due p = 0 := by omega
  rw [hzero] at h4
  exact h4

theorem wakeupLoop_ok (n : Nat) (hO : Ok w g s) (hlen : (g.lists sleepq).length ≤ n) :
    ∃ l₁ l₂, g.lists sleepq = l₁ ++ l₂ ∧
      (w.delays → (∀ p ∈ l₁, g.due p ≤ 0) ∧ ∀ p ∈ l₂, 0 < g.due p) ∧
      (∀ p, p ∈ l₁ ∨ s.Alive p → (Xinu.wakeupLoop n s).Alive p) ∧
      Ok w (g.setList sleepq l₂) (Xinu.wakeupLoop n s) := by
  induction n generalizing g s with
  | zero =>
      have hL : g.lists sleepq = [] := List.length_eq_zero_iff.mp (Nat.le_zero.mp hlen)
      refine ⟨[], [], hL, fun _ => ⟨by simp, by simp⟩, ?_, ?_⟩
      · intro p hp
        exact hp.resolve_left (by simp)
      · rw [← hL, View.setList_self]
        exact hO
  | succ n ih =>
      have heq := hO.inv.lists_sleepq
      unfold Xinu.wakeupLoop
      split
      · rename_i hcond
        cases hL : g.lists sleepq with
        | nil =>
            have h1 := (Xinu.nonempty_iff hO.inv.queues isQueue_sleepq).mp hcond.1
            exact absurd (heq.trans hL) h1
        | cons p l =>
            rcases wakeFirst_ok hO hL hcond.2 with ⟨hO₁, hdue, halive, hkeep⟩
            have hl₁ : (g.setList sleepq l).lists sleepq = l := g.setList_at sleepq l
            have hlen₁ : ((g.setList sleepq l).lists sleepq).length ≤ n := by
              rw [hl₁]
              rw [hL, List.length_cons] at hlen
              exact Nat.le_of_succ_le_succ hlen
            rcases ih hO₁ hlen₁ with ⟨l₁, l₂, happ, hdues, hkeep₁, hO₂⟩
            rw [hl₁] at happ
            rw [View.setList_setList] at hO₂
            refine ⟨p :: l₁, l₂, by rw [happ]; rfl, ?_, ?_, hO₂⟩
            · intro hw
              refine ⟨?_, (hdues hw).2⟩
              intro r hr
              rcases List.mem_cons.mp hr with he | he
              · rw [he]
                exact hdue hw
              · exact (hdues hw).1 r he
            · intro r hr
              apply hkeep₁
              rcases hr with hr | hr
              · rcases List.mem_cons.mp hr with he | he
                · right
                  rw [he]
                  exact halive
                · exact Or.inl he
              · exact Or.inr (hkeep r hr)
      · rename_i hcond
        refine ⟨[], g.lists sleepq, rfl, ?_, ?_, ?_⟩
        · intro hw
          refine ⟨by simp, ?_⟩
          cases hL : g.lists sleepq with
          | nil => simp
          | cons p l =>
              have hL' := heq.trans hL
              have hdelta := hO.inv.delta hw
              rw [hL'] at hdelta
              have hpos : 0 < g.due p := by
                by_contra hle
                apply hcond
                refine ⟨(Xinu.nonempty_iff hO.inv.queues isQueue_sleepq).mpr ?_, ?_⟩
                · rw [hL']
                  simp
                · have hfirst : s.firstid sleepq = p :=
                    hO.inv.queues.firstid_cons isQueue_sleepq hL'
                  unfold Xinu.firstkey
                  rw [hfirst]
                  have h1 := hdelta.1
                  dsimp only at h1
                  omega
              intro r hr
              rcases List.mem_cons.mp hr with he | he
              · rw [he]
                exact hpos
              · have h2 := hdelta.2.2.start_le he
                omega
        · intro p hp
          exact hp.resolve_left (by simp)
        · rw [View.setList_self]
          exact hO

/-!
## The tick
-/

theorem clkPreempt_ok (hO : Ok w g s) : Ok w g s.clkPreempt := by
  unfold Xinu.clkPreempt
  dsimp only
  have hO₁ := hO.quiet (quiet_setPreempt s (uint32 (s.preempt - 1)))
  split
  · exact resched_ok (hO₁.quiet (quiet_setPreempt _ QUANTUM)).inv (Or.inr hO₁.curr)
  · exact hO₁

theorem quiet_clkAdvance (s : Xinu) : Quiet s s.clkAdvance := by
  unfold Xinu.clkAdvance
  dsimp only
  split
  · exact ⟨rfl, fun _ => rfl, fun _ => rfl, fun _ => rfl, fun _ => rfl, rfl, rfl,
      fun _ => rfl, rfl, rfl, rfl, rfl, rfl⟩
  · exact ⟨rfl, fun _ => rfl, fun _ => rfl, fun _ => rfl, fun _ => rfl, rfl, rfl,
      fun _ => rfl, rfl, rfl, rfl, rfl, rfl⟩

/-- Counting down the first key counts down every due time. -/
theorem tick_ok (hO : Ok w g s) {p : Int} {l : List Int} (hL : g.lists sleepq = p :: l)
    (hpos : w.delays → 0 < g.due p ∧ g.due p < 2147483648) :
    Ok w (g.setDue fun p => g.due p - 1)
        (s.setQueue p fun e => { e with qkey := int32 (e.qkey - 1) }) ∧
      (w.delays → ((s.setQueue p fun e => { e with qkey := int32 (e.qkey - 1) }).queuetab
        p).qkey = g.due p - 1) := by
  have hL' : lists s.queuetab sleepq = p :: l := hO.inv.lists_sleepq.trans hL
  have hp : p ∈ lists s.queuetab sleepq := by
    rw [hL']
    exact List.mem_cons_self
  have hnd : (lists s.queuetab sleepq).Nodup := hO.inv.queues.nodup isQueue_sleepq
  rw [hL'] at hnd
  have hpl : p ∉ l := (List.nodup_cons.mp hnd).1
  rcases hO.inv.undelay.rekey (f := fun e => { e with qkey := int32 (e.qkey - 1) }) hp
    (fun _ => rfl) (fun _ => rfl) with ⟨hI, hl⟩
  have hself : (s.setQueue p fun e => { e with qkey := int32 (e.qkey - 1) }).queuetab p =
      { s.queuetab p with qkey := int32 ((s.queuetab p).qkey - 1) } := upd_self
  have hother : ∀ r, r ≠ p →
      (s.setQueue p fun e => { e with qkey := int32 (e.qkey - 1) }).queuetab r =
        s.queuetab r := fun r hr => upd_of_ne hr
  have hproc : (s.setQueue p fun e => { e with qkey := int32 (e.qkey - 1) }).proctab =
      s.proctab := rfl
  have hcp : (s.setQueue p fun e => { e with qkey := int32 (e.qkey - 1) }).currpid =
      s.currpid := rfl
  have hdefer : (s.setQueue p fun e => { e with qkey := int32 (e.qkey - 1) }).defer =
      s.defer := rfl
  generalize (s.setQueue p fun e => { e with qkey := int32 (e.qkey - 1) }) = s₁
    at hI hl hself hother hproc hcp hdefer ⊢
  have hkeyp : w.delays → (s₁.queuetab p).qkey = (s.queuetab p).qkey - 1 := by
    intro hw
    have h1 := hO.inv.delta hw
    rw [hL'] at h1
    have h2 := h1.1
    have h3 := hpos hw
    dsimp only at h2
    rw [hself]
    apply int32_eq
    · omega
    · omega
  have hdelta : w.delays → Delta (fun p => (s₁.queuetab p).qkey) (fun p => g.due p - 1) 0
      (p :: l) := by
    intro hw
    have h1 := hO.inv.delta hw
    rw [hL'] at h1
    apply h1.tick (hkeyp hw)
    · intro r hr
      have hrp : r ≠ p := fun he => hpl (he ▸ hr)
      rw [hother r hrp]
    · exact (hpos hw).1
  refine ⟨⟨?_, ?_, ?_⟩, ?_⟩
  · apply (hI.setDue _).redelay
    rw [hl, hL']
    exact hdelta
  · rw [hproc, hcp]
    exact hO.curr
  · rw [hl, hproc, hcp, hdefer]
    exact hO.top
  · intro hw
    have h1 := (hdelta hw).1
    dsimp only at h1
    rw [h1, Int.sub_zero]

theorem setDue_nil_ok (hO : Ok w g s) (hL : g.lists sleepq = []) (due : Int → Int) :
    Ok w (g.setDue due) s := by
  refine ⟨?_, hO.curr, hO.top⟩
  apply (hO.inv.undelay.setDue due).redelay
  intro _
  rw [hO.inv.lists_sleepq, hL]
  trivial

/-- {lit}`wakeup` makes ready exactly the sleepers whose due time has come. -/
theorem wakeup_ok (hO : Ok w g s) (hdef : g.defers = 0) :
    ∃ l₁ l₂, g.lists sleepq = l₁ ++ l₂ ∧
      (w.delays → (∀ p ∈ l₁, g.due p ≤ 0) ∧ ∀ p ∈ l₂, 0 < g.due p) ∧
      (∀ p ∈ l₁, s.wakeup.Alive p) ∧ Ok w (g.setList sleepq l₂) s.wakeup := by
  have hstart := deferStart_ok hO hdef
  have hlen : ((g.setDefers 1).lists sleepq).length ≤ Xinu.queueFuel := by
    have h1 : (lists s.queuetab sleepq).length ≤ 100 := hO.inv.length_le isQueue_sleepq
    rw [hO.inv.lists_sleepq] at h1
    exact Nat.le_trans h1 (by decide)
  rcases wakeupLoop_ok Xinu.queueFuel hstart hlen with ⟨l₁, l₂, happ, hdues, hkeep, hO₁⟩
  refine ⟨l₁, l₂, happ, hdues, ?_, ?_⟩
  · intro p hp
    have h1 := hkeep p (Or.inl hp)
    unfold Xinu.wakeup
    dsimp only
    rw [reschedCntl_stop]
    unfold Xinu.deferStop
    split
    · exact h1
    · dsimp only
      split
      · exact alive_resched h1
      · exact h1
  · have h1 := deferStop_ok hO₁ rfl
    have h2 : ((g.setDefers 1).setList sleepq l₂).setDefers 0 = g.setList sleepq l₂ := by
      show (g.setList sleepq l₂).setDefers 0 = _
      exact View.setDefers_zero hdef
    rw [h2] at h1
    exact h1

theorem clkhandler_ok (hO : Ok w g s) (hdef : g.defers = 0)
    (hpos : w.delays → ∀ p ∈ g.lists sleepq, 0 < g.due p ∧ g.due p < 2147483648) :
    ∃ l₁ l₂, g.lists sleepq = l₁ ++ l₂ ∧
      (w.delays → (∀ p ∈ l₁, g.due p = 1) ∧ ∀ p ∈ l₂, 1 < g.due p) ∧
      (∀ p ∈ l₁, s.clkhandler.Alive p) ∧
      Ok w ((g.setDue fun p => g.due p - 1).setList sleepq l₂) s.clkhandler := by
  have hO₁ := hO.quiet (quiet_clkAdvance s)
  unfold Xinu.clkhandler
  dsimp only
  generalize s.clkAdvance = s₁ at hO₁ ⊢
  have hempty := Xinu.isempty_iff hO₁.inv.queues isQueue_sleepq
  rw [hO₁.inv.lists_sleepq] at hempty
  have hself := View.setList_self (g.setDue fun p => g.due p - 1) sleepq
  cases hL : g.lists sleepq with
  | nil =>
      rw [if_neg (not_not.mpr (hempty.mpr hL))]
      refine ⟨[], [], rfl, fun _ => ⟨by simp, by simp⟩, by simp, ?_⟩
      have h1 : (g.setDue fun p => g.due p - 1).lists sleepq = [] := hL
      rw [← h1, hself]
      exact clkPreempt_ok (setDue_nil_ok hO₁ hL _)
  | cons p l =>
      have hne : ¬ s₁.isempty sleepq := by
        rw [hempty, hL]
        simp
      have hfirst : s₁.firstid sleepq = p :=
        hO₁.inv.queues.firstid_cons isQueue_sleepq (hO₁.inv.lists_sleepq.trans hL)
      have hpos' : w.delays → ∀ r ∈ p :: l, 0 < g.due r ∧ g.due r < 2147483648 := by
        rw [← hL]
        exact hpos
      rw [if_pos hne, hfirst]
      rcases tick_ok hO₁ hL (fun hw => hpos' hw p List.mem_cons_self) with ⟨hO₂, hkey⟩
      generalize (s₁.setQueue p fun e => { e with qkey := int32 (e.qkey - 1) }) = s₂
        at hO₂ hkey ⊢
      split
      · rcases wakeup_ok (hO₂.push (f := .clkPreempt) rfl) hdef with
          ⟨l₁, l₂, happ, hdues, halive, hO₃⟩
        refine ⟨l₁, l₂, hL.symm.trans happ, ?_, halive, hO₃⟩
        intro hw
        rcases hdues hw with ⟨h1, h2⟩
        have happ' : p :: l = l₁ ++ l₂ := hL.symm.trans happ
        constructor
        · intro r hr
          have h3 := h1 r hr
          have h4 := (hpos' hw r (by rw [happ']; simp [hr])).1
          dsimp only [View.setDue] at h3
          omega
        · intro r hr
          have h3 := h2 r hr
          dsimp only [View.setDue] at h3
          omega
      · rename_i hne₂
        refine ⟨[], p :: l, rfl, ?_, by simp, ?_⟩
        · intro hw
          refine ⟨by simp, ?_⟩
          have h1 := hkey hw
          have h2 := (hpos' hw p List.mem_cons_self).1
          have hdelta := hO₂.inv.delta hw
          have h3 : lists s₂.queuetab sleepq = p :: l := hO₂.inv.lists_sleepq.trans hL
          rw [h3] at hdelta
          intro r hr
          rcases List.mem_cons.mp hr with he | he
          · rw [he]
            omega
          · have h4 := hdelta.2.2.start_le he
            dsimp only [View.setDue] at h4
            omega
        · have h1 : (g.setDue fun p => g.due p - 1).lists sleepq = p :: l := hL
          rw [← h1, hself]
          exact clkPreempt_ok hO₂

/-!
## Sending
-/

theorem Inv.ready_off (hO : Ok w g s) {p : Int} (hv : ¬ s.isbadpid p)
    (hhome : home (s.proctab p) = none) (hne : s.currpid ≠ p) : Ok w g (s.ready p) :=
  ready_ok (hO.inv.open_hole hhome) hO.curr hne hv

theorem send_ok (hO : Ok w g s) (hbound : w.delays → g.Bounded) (pid : Int) (msg : Nat) :
    ∃ g', (g' = g ∨ g' = g.setList sleepq ((g.lists sleepq).erase pid)) ∧
      Ok w g' (s.send pid msg) := by
  unfold Xinu.send
  split
  · exact ⟨g, Or.inl rfl, hO.ret _⟩
  · rename_i hgood
    split
    · exact ⟨g, Or.inl rfl, hO.ret _⟩
    · dsimp only
      have hq : Quiet s (s.setProc pid fun e => { e with prmsg := msg, prhasmsg := true }) :=
        quiet_setProc s pid (fun _ => rfl) (fun _ => rfl) (fun _ => rfl)
      have hO₁ := hO.quiet hq
      have hgood₁ : ¬ (s.setProc pid fun e =>
          { e with prmsg := msg, prhasmsg := true }).isbadpid pid := by
        rw [Xinu.not_isbadpid_iff, hq.prstate]
        exact Xinu.not_isbadpid_iff.mp hgood
      generalize (s.setProc pid fun e => { e with prmsg := msg, prhasmsg := true }) = s₁
        at hO₁ hgood₁ ⊢
      have hne : ∀ st, (s₁.proctab pid).prstate = st → st ≠ .curr → s₁.currpid ≠ pid := by
        rintro st hst hcurr rfl
        exact hcurr (hst.symm.trans hO₁.curr)
      split
      · rename_i hrecv
        refine ⟨g, Or.inl rfl, ?_⟩
        exact Inv.ready_off (hO₁.push rfl) hgood₁ (home_recv hrecv)
          (hne _ hrecv (by decide))
      · split
        · rename_i hrectim
          refine ⟨_, Or.inr rfl, ?_⟩
          rcases unsleep_inv (hO₁.push (f := .ret OK) rfl).inv hbound (Or.inr hrectim) with
            ⟨t, ht, hI⟩
          rw [ht]
          exact ready_ok hI hO₁.curr (hne _ hrectim (by decide)) hgood₁
        · exact ⟨g, Or.inl rfl, hO₁.ret _⟩

end

end BbbXinu
