import BbbXinu.Invariant.Scheduler

/-!
# The invariant holds after initialization

{lit}`sysinit` allocates the queues one after the other.  After each call of
{lit}`newqueue` the sentinels below {lit}`nextqid` enclose empty lists.
-/

namespace BbbXinu

open LinkedLists KeyedLists

/-- Blocker table of {lit}`sysinit`. -/
def bootRwb (b : Int) : Rwbentry :=
  { rwstate := .free, rwcount := 0, rwqueue := if ValidRwb b then rwq b else 0, qcount := 0 }

/-- The view after {lit}`sysinit`: only the null process is there. -/
def bootView : View where
  live := fun p => p = NULLPROC
  limbo := fun _ => False
  lost := fun _ => False
  due := fun _ => 0
  lists := fun _ => []
  tab := bootRwb
  flags := fun _ => 0
  frames := fun _ => []
  defers := 0

/-- The two states agree on everything but the allocated queues. -/
structure SameBase (s s' : Xinu) : Prop where
  proctab : s'.proctab = s.proctab
  rwbflags : s'.rwbflags = s.rwbflags
  stack : s'.stack = s.stack
  currpid : s'.currpid = s.currpid
  readycount : s'.readycount = s.readycount
  defer : s'.defer = s.defer
  envtab : s'.envtab = s.envtab
  nextrwb : s'.nextrwb = s.nextrwb

/-- Initialization has allocated the queues below {lit}`q`, the first {lit}`m`
semaphores and the first {lit}`n` blockers. -/
structure Booting (s₀ : Xinu) (q m n : Int) (s : Xinu) : Prop where
  base : SameBase s₀ s
  nextqid : s.nextqid = q
  fresh : ∀ r, NPROC ≤ r → r < q → r % 2 = 0 →
    s.queuetab r = { qnext := queuetail r, qprev := EMPTY, qkey := MAXKEY } ∧
      s.queuetab (queuetail r) = { qnext := EMPTY, qprev := queuehead r, qkey := MINKEY }
  squeue : ∀ i, 0 ≤ i → i < m → (s.semtab i).squeue = semq i
  rwbtab : ∀ b, s.rwbtab b =
    { rwstate := .free, rwcount := 0, rwqueue := if 0 ≤ b ∧ b < n then rwq b else 0,
      qcount := 0 }

section

variable {s₀ s : Xinu} {q m n : Int}

theorem Booting.newqueue (h : Booting s₀ q m n s) (heven : q % 2 = 0) (hq : q ≤ NQENT) :
    s.newqueue.1 = q ∧ Booting s₀ (q + 2) m n s.newqueue.2 := by
  have hroom : ¬ NQENT < s.nextqid := by
    rw [h.nextqid]
    omega
  unfold Xinu.newqueue
  dsimp only
  rw [if_neg hroom, h.nextqid]
  refine ⟨rfl, ⟨?_, ?_, ?_, h.squeue, h.rwbtab⟩⟩
  · exact ⟨h.base.proctab, h.base.rwbflags, h.base.stack, h.base.currpid,
      h.base.readycount, h.base.defer, h.base.envtab, h.base.nextrwb⟩
  · rfl
  · intro r h1 h2 h3
    have hget : ∀ i, ((((s.setNextqid (q + 2)).setQueue (queuehead q) fun _ =>
        { qnext := queuetail q, qprev := EMPTY, qkey := MAXKEY }).setQueue (queuetail q)
          fun _ => { qnext := EMPTY, qprev := queuehead q, qkey := MINKEY }).queuetab i) =
        if i = q + 1 then { qnext := EMPTY, qprev := queuehead q, qkey := MINKEY }
        else if i = q then { qnext := queuetail q, qprev := EMPTY, qkey := MAXKEY }
        else s.queuetab i := fun _ => rfl
    rw [hget, hget]
    unfold queuetail
    by_cases hr : r = q
    · rw [hr, if_neg (by omega), if_pos rfl, if_pos rfl]
      exact ⟨rfl, rfl⟩
    · rw [if_neg (by omega), if_neg hr, if_neg (by omega), if_neg (by omega)]
      exact h.fresh r h1 (by omega) h3

theorem Booting.setPreempt (h : Booting s₀ q m n s) (k : Nat) :
    Booting s₀ q m n (s.setPreempt k) :=
  ⟨⟨h.base.proctab, h.base.rwbflags, h.base.stack, h.base.currpid, h.base.readycount,
    h.base.defer, h.base.envtab, h.base.nextrwb⟩, h.nextqid, h.fresh, h.squeue, h.rwbtab⟩

theorem initSems_booting (k : Nat) (h : Booting s₀ (semq m) m n s) (hm : 0 ≤ m)
    (hk : m + k ≤ NSEM) :
    Booting s₀ (semq (m + k)) (m + k) n (Xinu.initSems k m s) := by
  induction k generalizing m s with
  | zero =>
      rw [Int.natCast_zero, Int.add_zero]
      exact h
  | succ k ih =>
      have heven : semq m % 2 = 0 := by
        unfold semq
        rw [nproc_val]
        omega
      have hroom : semq m ≤ NQENT := by
        unfold semq
        simp only [NQENT, NSEM, RWB_COUNT, nproc_val] at *
        omega
      rcases h.newqueue heven hroom with ⟨hid, hnew⟩
      unfold Xinu.initSems
      dsimp only
      rw [hid]
      have hnext : semq m + 2 = semq (m + 1) := by
        unfold semq
        omega
      have hcast : m + ((k + 1 : Nat) : Int) = (m + 1) + k := by omega
      rw [hcast]
      apply ih
      · rw [hnext] at hnew
        refine ⟨⟨hnew.base.proctab, hnew.base.rwbflags, hnew.base.stack, hnew.base.currpid,
          hnew.base.readycount, hnew.base.defer, hnew.base.envtab, hnew.base.nextrwb⟩,
          hnew.nextqid, hnew.fresh, ?_, hnew.rwbtab⟩
        intro i h1 h2
        show (upd s.newqueue.2.semtab m _ i).squeue = _
        rw [upd_apply]
        split
        · rename_i hi
          rw [hi]
        · exact hnew.squeue i h1 (by omega)
      · omega
      · omega

theorem initRwbs_booting (k : Nat) (h : Booting s₀ (rwq n) m n s) (hn : 0 ≤ n)
    (hk : n + k ≤ RWB_COUNT) :
    Booting s₀ (rwq (n + k)) m (n + k) (Xinu.initRwbs k n s) := by
  induction k generalizing n s with
  | zero =>
      rw [Int.natCast_zero, Int.add_zero]
      exact h
  | succ k ih =>
      have heven : rwq n % 2 = 0 := by
        unfold rwq
        simp only [nproc_val, NSEM]
        omega
      have hroom : rwq n ≤ NQENT := by
        unfold rwq
        simp only [NQENT, NSEM, RWB_COUNT, nproc_val] at *
        omega
      rcases h.newqueue heven hroom with ⟨hid, hnew⟩
      unfold Xinu.initRwbs
      dsimp only
      rw [hid]
      have hnext : rwq n + 2 = rwq (n + 1) := by
        unfold rwq
        omega
      have hcast : n + ((k + 1 : Nat) : Int) = (n + 1) + k := by omega
      rw [hcast]
      apply ih
      · rw [hnext] at hnew
        refine ⟨⟨hnew.base.proctab, hnew.base.rwbflags, hnew.base.stack, hnew.base.currpid,
          hnew.base.readycount, hnew.base.defer, hnew.base.envtab, hnew.base.nextrwb⟩,
          hnew.nextqid, hnew.fresh, hnew.squeue, ?_⟩
        intro b
        show upd s.newqueue.2.rwbtab n _ b = _
        rw [upd_apply]
        split
        · rename_i hb
          rw [hb, if_pos (by omega)]
        · rename_i hb
          rw [hnew.rwbtab b]
          have hiff : (0 ≤ b ∧ b < n) ↔ (0 ≤ b ∧ b < n + 1) := by omega
          rw [if_congr hiff rfl rfl]
      · omega
      · omega

end

section

variable (mem : Mem) (rand : Nat → Nat)

theorem sysinit_booting : Booting ((Xinu.image mem rand).initNull) (sleepq + 2) NSEM RWB_COUNT
    (Xinu.sysinit mem rand) := by
  have h₀ : Booting ((Xinu.image mem rand).initNull) (semq 0) 0 0
      ((Xinu.image mem rand).initNull) := by
    refine ⟨⟨rfl, rfl, rfl, rfl, rfl, rfl, rfl, rfl⟩, rfl, ?_, ?_, ?_⟩
    · intro r h1 h2
      exact absurd h2 (by
        have h3 : semq 0 = NPROC := rfl
        omega)
    · intro i h1 h2
      omega
    · intro b
      rw [if_neg (by omega)]
      rfl
  have h₁ := initSems_booting NSEM.toNat h₀ (Int.le_refl 0) (by decide)
  have h₂ : Booting _ (rwq 0) NSEM 0 _ := h₁
  have h₃ := initRwbs_booting RWB_COUNT.toNat h₂ (Int.le_refl 0) (by decide)
  have h₄ := (h₃.newqueue (by decide) (by decide)).2
  have h₅ := (h₄.newqueue (by decide) (by decide)).2
  have h₆ := (h₅.newqueue (by decide) (by decide)).2
  have hq : rwq (0 + (RWB_COUNT.toNat : Int)) + 2 + 2 + 2 = sleepq + 2 := by decide
  have hn : 0 + (RWB_COUNT.toNat : Int) = RWB_COUNT := by decide
  rw [hq, hn] at h₆
  unfold Xinu.sysinit
  dsimp only
  exact h₆.setPreempt QUANTUM

/-- All queues are empty. -/
theorem sysinit_queues : Queues (Xinu.sysinit mem rand).queuetab fun _ => [] := by
  have h := sysinit_booting mem rand
  constructor
  · intro q hq
    have hfresh := h.fresh q hq.1 (Int.lt_of_le_of_lt hq.2.1 (by decide)) hq.2.2
    rw [Seg, hfresh.1, hfresh.2]
    exact ⟨rfl, rfl⟩
  · intro q x _ hx
    cases hx
  · exact fun _ => List.nodup_nil
  · intro q r x _ _ hx
    cases hx

theorem sysinit_proctab (p : Int) :
    ((Xinu.sysinit mem rand).proctab p).prstate = if p = NULLPROC then .curr else .free := by
  rw [(sysinit_booting mem rand).base.proctab]
  by_cases hp : p = NULLPROC
  · rw [hp, if_pos rfl]
    rfl
  · rw [if_neg hp]
    unfold Xinu.initNull
    dsimp only
    rw [setProc_of_ne _ _ hp]
    rfl

theorem sysinit_ok (w : Watch) : Ok w bootView (Xinu.sysinit mem rand) := by
  have h := sysinit_booting mem rand
  have hQ := sysinit_queues mem rand
  have hstate := sysinit_proctab mem rand
  have hlists : ∀ q, lists (Xinu.sysinit mem rand).queuetab q = [] := by
    intro q
    by_cases hq : IsQueue q
    · exact hQ.lists_eq hq
    · exact lists_of_not hq
  have hhome : ∀ p, home ((Xinu.sysinit mem rand).proctab p) = none := by
    intro p
    have h1 := hstate p
    split at h1
    · exact home_curr h1
    · exact home_free h1
  have hcurr : (Xinu.sysinit mem rand).currpid = NULLPROC := h.base.currpid
  have hcurr_iff : ∀ p, ((Xinu.sysinit mem rand).proctab p).prstate = .curr ↔
      p = NULLPROC := by
    intro p
    rw [hstate p]
    split
    · rename_i hp
      exact iff_of_true rfl hp
    · rename_i hp
      exact iff_of_false (fun h => by cases h) hp
  have hnowait : ∀ p, ((Xinu.sysinit mem rand).proctab p).prstate ≠ .wait := by
    intro p
    rw [hstate p]
    split
    · exact fun h => by cases h
    · exact fun h => by cases h
  refine ⟨?_, ?_, ?_⟩
  · exact {
      queues := hQ.canon
      sentinels := fun q hq => by
        have hfresh := h.fresh q hq.1 (Int.lt_of_le_of_lt hq.2.1 (by decide)) hq.2.2
        rw [hfresh.1, hfresh.2]
        exact ⟨rfl, rfl⟩
      mem_iff := fun q p => by
        rw [hlists, hhome]
        exact iff_of_false List.not_mem_nil (fun h => by cases h.1)
      home_queue := fun p q hp => by
        rw [hhome] at hp
        cases hp
      waits_on := fun p hp => absurd hp (hnowait p)
      live := fun p => by
        show p = NULLPROC ↔ _
        rw [hstate p]
        split
        · rename_i hp
          exact iff_of_true hp (fun h => by cases h)
        · rename_i hp
          exact iff_of_false hp (fun h => h rfl)
      limbo := fun p hp => False.elim hp
      lost := fun p hp => False.elim hp
      squeue := fun i hi => by
        simp only [isbadsem, not_or, Int.not_lt, Int.not_le] at hi
        exact h.squeue i hi.1 hi.2
      rwqueue := fun b hb => by
        rw [h.rwbtab b]
        exact if_pos hb
      valid_curr := by
        rw [hcurr]
        decide
      valid_nextrwb := by
        rw [h.base.nextrwb]
        exact (by decide : ValidRwb 0)
      curr_unique := fun p hp => by
        rw [hcurr]
        exact (hcurr_iff p).mp hp
      null_state := Or.inl ((hcurr_iff NULLPROC).mpr rfl)
      lists_eq := fun q _ => hlists q
      tab := funext h.rwbtab
      flags := h.base.rwbflags
      frames := fun p => by
        rw [h.base.stack]
        rfl
      defers := by
        rw [h.base.defer]
        rfl
      count := fun _ => by
        rw [hlists, h.base.readycount]
        rfl
      scheduler := fun _ => by
        rw [h.base.envtab]
        rfl
      descending := fun _ => by
        rw [hlists]
        exact List.Pairwise.nil
      keys := fun _ p hp => by
        rw [hlists] at hp
        cases hp
      delta := fun _ => by
        rw [hlists]
        exact trivial }
  · rw [hcurr]
    exact (hcurr_iff NULLPROC).mpr rfl
  · intro _ _ p hp
    rw [hlists] at hp
    cases hp

end

end BbbXinu
