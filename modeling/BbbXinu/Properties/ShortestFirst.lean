import BbbXinu.Properties.StateTimes

/-!
# Shortest job first

{lit}`setprio` turns the CPU time of a process into a priority: it counts the
milliseconds modulo 32768 and subtracts them from the largest priority.
-/

namespace BbbXinu

open KeyedLists

/-- The CPU time that {lit}`record_cpuqdata` has recorded for a process. -/
def Xinu.cpuTime (s : Xinu) (pid : Int) : Nat :=
  (((s.recordCpuqdata pid).proctab pid).statetimes QTYPE_SJF PrState.curr).millis

/-- A process whose priority {lit}`setprio` computes from its CPU time. -/
structure Xinu.SjfUser (s : Xinu) (pid : Int) : Prop where
  sched : s.envtab EV_SCHEDULER = QTYPE_SJF
  good : ¬ s.isbadpid pid
  user : pid ≠ NULLPROC

/-- Queues to which two processes can be added. -/
structure Xinu.Waits (u : Xinu) (p q : Int) : Prop where
  queues : Queues u.queuetab (lists u.queuetab)
  sentinels : Sentinels u.queuetab
  ne : p ≠ q
  good : ¬ u.isbadpid p ∧ ¬ u.isbadpid q
  off : ∀ r, p ∉ lists u.queuetab r ∧ q ∉ lists u.queuetab r

/-- Inserted with these keys, in either order, {lit}`p` is queued before {lit}`q`. -/
def Xinu.QueuedFirst (u : Xinu) (r p : Int) (prio : Int) (q : Int) (prio' : Int) : Prop :=
  [p, q].Sublist (lists ((u.insert p r prio).insert q r prio').queuetab r) ∧
    [p, q].Sublist (lists ((u.insert q r prio').insert p r prio).queuetab r)

/-- {lit}`setprio` prefers the process with less CPU time, and every user process to the null
process, whose priority is 0. -/
structure ShortestFirst (s : Xinu) (p : Int) (t : Xinu) (q : Int) (u : Xinu) (r : Int) : Prop where
  order : (s.cpuTime p < t.cpuTime q → (t.setprio q).1 ≤ (s.setprio p).1) ∧
    (t.cpuTime q < s.cpuTime p → (s.setprio p).1 ≤ (t.setprio q).1)
  range : (0 ≤ (s.setprio p).1 ∧ (s.setprio p).1 ≤ 32767) ∧
    0 ≤ (t.setprio q).1 ∧ (t.setprio q).1 ≤ 32767
  above_null : 0 < (s.setprio p).1 ∧ 0 < (t.setprio q).1
  queued : (s.cpuTime p < t.cpuTime q →
      u.QueuedFirst r p (s.setprio p).1 q (t.setprio q).1) ∧
    (t.cpuTime q < s.cpuTime p → u.QueuedFirst r q (t.setprio q).1 p (s.setprio p).1)

section

variable {s t u : Xinu} {p q r prio prio' : Int}

/-!
## The priority
-/

/-- The macros compute in 32 bits, which 32768 divides. -/
theorem INT16_prttime (t : Mstime) : INT16 t.prttime = t.millis % 32768 := by
  unfold INT16 Mstime.prttime Mstime.millis uint32
  omega

theorem Xinu.SjfUser.setprio (h : s.SjfUser p) :
    (s.setprio p).1 = 32767 - (s.cpuTime p % 32768 : Nat) := by
  unfold Xinu.setprio
  rw [if_neg h.good, if_neg h.user, if_pos h.sched]
  dsimp only
  rw [INT16_prttime]
  unfold INT16 SHRT_MAX Xinu.cpuTime
  omega

/-!
## The queue
-/

/-- {lit}`insert` keeps the sentinels, which are no processes. -/
theorem Sentinels.insert {t t' : Int → Qentry} (h : Sentinels t) (hp : ValidPid p)
    (hk : ∀ i, i ≠ p → (t' i).qkey = (t i).qkey) : Sentinels t' := by
  intro r hr
  unfold ValidPid at hp
  have hlow : NPROC ≤ r := hr.1
  have hne : r ≠ p := by omega
  have hne' : queuetail r ≠ p := by
    unfold queuetail
    omega
  rw [hk _ hne, hk _ hne']
  exact h r hr

/-- Two processes after one another. -/
theorem Xinu.Waits.inserted (h : u.Waits p q) (hr : IsQueue r) (hprio : MINKEY < prio)
    (hprio' : MINKEY < prio') : ∃ k : Int → Int, k p = prio ∧
      (∀ i, i ≠ p → k i = (u.queuetab i).qkey) ∧
      lists ((u.insert p r prio).insert q r prio').queuetab r =
        insertKey k q prio' (insertKey (fun i => (u.queuetab i).qkey) p prio
          (lists u.queuetab r)) := by
  rcases insert_spec h.queues h.sentinels hr h.good.1 (fun r _ => (h.off r).1) hprio with
    ⟨t, ht, hQ, hkp, hk⟩
  have hvalid := (not_isbadpid_iff.mp h.good.1).1
  have hoff : ∀ r', IsQueue r' → q ∉ upd (lists u.queuetab) r
      (insertKey (fun i => (u.queuetab i).qkey) p prio (lists u.queuetab r)) r' := by
    intro r' _ hmem
    by_cases hrr : r' = r
    · rw [hrr, upd_self] at hmem
      rcases mem_insertKey.mp hmem with heq | hin
      · exact h.ne heq.symm
      · exact (h.off r).2 hin
    · rw [upd_of_ne hrr] at hmem
      exact (h.off r').2 hmem
  rcases insert_spec (s := u.setQueuetab t) hQ (h.sentinels.insert hvalid hk) hr h.good.2 hoff
    hprio' with ⟨t', ht', hQ', _, _⟩
  refine ⟨fun i => (t i).qkey, hkp, hk, ?_⟩
  rw [ht, ht']
  have hlists := hQ'.lists_eq hr
  rw [upd_self, upd_self] at hlists
  exact hlists

theorem Xinu.Waits.symm (h : u.Waits p q) : u.Waits q p :=
  ⟨h.queues, h.sentinels, h.ne.symm, ⟨h.good.2, h.good.1⟩, fun r => ⟨(h.off r).2, (h.off r).1⟩⟩

theorem Xinu.Waits.not_mem (h : u.Waits p q) {z : Int} (hz : z ∈ lists u.queuetab r) : z ≠ p :=
  fun heq => (h.off r).1 (heq ▸ hz)

/-- The one that comes later stays behind a key that is at least as large. -/
theorem Xinu.Waits.later (h : u.Waits p q) (hr : IsQueue r) (hprio' : MINKEY < prio')
    (hle : prio' ≤ prio) :
    [p, q].Sublist (lists ((u.insert p r prio).insert q r prio').queuetab r) := by
  rcases h.inserted hr (Int.lt_of_lt_of_le hprio' hle) hprio' with ⟨k, hkp, hk, hlists⟩
  rw [hlists]
  exact insertKey_later hkp (fun z hz => hk z (h.not_mem hz)) hle

theorem Xinu.Waits.sooner (h : u.Waits p q) (hr : IsQueue r) (hprio : MINKEY < prio)
    (hlt : prio < prio') :
    [q, p].Sublist (lists ((u.insert p r prio).insert q r prio').queuetab r) := by
  rcases h.inserted hr hprio (Int.lt_trans hprio hlt) with ⟨k, hkp, _, hlists⟩
  rw [hlists]
  exact insertKey_sooner hkp hlt

theorem Xinu.Waits.nodup (h : u.Waits p q) (hr : IsQueue r) (hprio : MINKEY < prio)
    (hprio' : MINKEY < prio') :
    (lists ((u.insert p r prio).insert q r prio').queuetab r).Nodup := by
  rcases h.inserted hr hprio hprio' with ⟨k, _, _, hlists⟩
  have hnd : (lists u.queuetab r).Nodup := h.queues.nodup hr
  rw [hlists, insertKey_perm.nodup_iff, List.nodup_cons, insertKey_perm.nodup_iff,
    List.nodup_cons, mem_insertKey]
  exact ⟨fun hmem => hmem.elim (fun heq => h.ne heq.symm) (h.off r).2, (h.off r).1, hnd⟩

/-- Two elements are in one order only. -/
theorem not_sublist_swap {l : List Int} (hnd : l.Nodup) (hne : p ≠ q) (h : [p, q].Sublist l) :
    ¬ [q, p].Sublist l := by
  intro h'
  induction l with
  | nil => cases h
  | cons x l ih =>
      rcases List.nodup_cons.mp hnd with ⟨hx, hnd⟩
      cases h with
      | cons _ h =>
          cases h' with
          | cons _ h' => exact ih hnd h h'
          | cons_cons _ h' => exact hx (h.mem (by simp))
      | cons_cons _ h =>
          cases h' with
          | cons _ h' => exact hx (h'.mem (by simp))
          | cons_cons _ h' => exact hne rfl

/-- Being queued first takes a larger key. -/
theorem Xinu.Waits.queuedFirst_iff (h : u.Waits p q) (hr : IsQueue r) (hprio : MINKEY < prio)
    (hprio' : MINKEY < prio') : u.QueuedFirst r p prio q prio' ↔ prio' < prio := by
  constructor
  · intro hfirst
    by_contra hle
    have hle' : prio ≤ prio' := Int.not_lt.mp hle
    exact not_sublist_swap (h.symm.nodup hr hprio' hprio) h.ne hfirst.2
      (h.symm.later hr hprio hle')
  · intro hlt
    exact ⟨h.later hr hprio' (Int.le_of_lt hlt), h.symm.sooner hr hprio' hlt⟩

/-!
## The exact condition
-/

/-- {lit}`setprio` puts the shortest job first if and only if 32768 milliseconds are not in
the way: the times are in the same order modulo that number, and neither is one less than
a multiple of it. -/
theorem shortest_first_iff (hp : s.SjfUser p) (hq : t.SjfUser q) (hu : u.Waits p q) (hr : IsQueue r) :
    ShortestFirst s p t q u r ↔
      (s.cpuTime p < t.cpuTime q → s.cpuTime p % 32768 < t.cpuTime q % 32768) ∧
      (t.cpuTime q < s.cpuTime p → t.cpuTime q % 32768 < s.cpuTime p % 32768) ∧
      s.cpuTime p % 32768 ≠ 32767 ∧ t.cpuTime q % 32768 ≠ 32767 := by
  have hpp := hp.setprio
  have hqq := hq.setprio
  have hmin : MINKEY < (s.setprio p).1 := by
    unfold MINKEY
    omega
  have hmin' : MINKEY < (t.setprio q).1 := by
    unfold MINKEY
    omega
  have hfirst := hu.queuedFirst_iff hr hmin hmin'
  have hfirst' := hu.symm.queuedFirst_iff hr hmin' hmin
  constructor
  · intro h
    have hnull := h.above_null
    refine ⟨?_, ?_, ?_, ?_⟩
    · intro hlt
      have hprio := hfirst.mp (h.queued.1 hlt)
      omega
    · intro hlt
      have hprio := hfirst'.mp (h.queued.2 hlt)
      omega
    · omega
    · omega
  · intro h
    rcases h with ⟨hlt, hgt, hlow, hlow'⟩
    constructor
    · constructor
      · intro hless
        have hmod := hlt hless
        omega
      · intro hless
        have hmod := hgt hless
        omega
    · omega
    · omega
    · constructor
      · intro hless
        have hmod := hlt hless
        exact hfirst.mpr (by omega)
      · intro hless
        have hmod := hgt hless
        exact hfirst'.mpr (by omega)

/-!
## Two processes
-/

/-- Process 1 has used the processor for {lit}`secs` seconds, the others for
{lit}`secs'`. -/
def Xinu.withTimes (s : Xinu) (secs secs' : Nat) : Xinu :=
  { s with
    envtab := upd s.envtab EV_SCHEDULER QTYPE_SJF
    proctab := fun i =>
      { s.proctab i with
        prstate := .susp
        timestatein := ztime
        statetimes := fun _ _ => { secs := if i = 1 then secs else secs', ms := 0 } } }

theorem withTimes_user (s : Xinu) (secs secs' : Nat) (hp : 0 < p) (hlt : p < NPROC) :
    (s.withTimes secs secs').SjfUser p where
  sched := rfl
  good := by
    rw [Xinu.not_isbadpid_iff]
    exact ⟨⟨Int.le_of_lt hp, hlt⟩, PrState.noConfusion⟩
  user := ne_of_gt hp

theorem withTimes_cpuTime (s : Xinu) (secs secs' : Nat) (hp : 0 < p) (hlt : p < NPROC) :
    (s.withTimes secs secs').cpuTime p = (if p = 1 then secs else secs') * 1000 := by
  have huser := withTimes_user s secs secs' hp hlt
  unfold Xinu.cpuTime Xinu.recordCpuqdata
  rw [if_pos (Or.inr huser.sched), if_neg huser.good]
  dsimp only
  have hnever : ¬ (((s.withTimes secs secs').proctab p).timestatein.secs ≠ 0 ∨
      ((s.withTimes secs secs').proctab p).timestatein.ms ≠ 0) := fun h => h.elim (· rfl) (· rfl)
  rw [setProc_self, if_neg hnever]
  exact Nat.add_zero _

theorem withTimes_waits (hQ : Queues s.queuetab fun _ => []) (hS : Sentinels s.queuetab)
    (secs secs' : Nat) : (s.withTimes secs secs').Waits 1 2 := by
  have hnone : ∀ r, lists s.queuetab r = [] := by
    intro r
    by_cases hr : IsQueue r
    · exact hQ.lists_eq hr
    · exact lists_of_not hr
  constructor
  · exact hQ.canon
  · exact hS
  · decide
  · exact ⟨(withTimes_user s secs secs' (by decide) (by decide)).good,
      (withTimes_user s secs secs' (by decide) (by decide)).good⟩
  · intro r
    have hlist : lists (s.withTimes secs secs').queuetab r = [] := hnone r
    rw [hlist]
    exact ⟨List.not_mem_nil, List.not_mem_nil⟩

theorem sampleBoot_waits (secs secs' : Nat) : (sampleBoot.withTimes secs secs').Waits 1 2 :=
  withTimes_waits (sysinit_queues sampleMem _)
    (sysinit_ok sampleMem _ ⟨True, True, True⟩).inv.sentinels secs secs'

/-- One second against two. -/
theorem shortest_first_seconds :
    ShortestFirst (sampleBoot.withTimes 1 2) 1 (sampleBoot.withTimes 1 2) 2
      (sampleBoot.withTimes 1 2) readylist := by
  apply (shortest_first_iff (withTimes_user _ _ _ (by decide) (by decide))
    (withTimes_user _ _ _ (by decide) (by decide)) (sampleBoot_waits 1 2)
    isQueue_readylist).mpr
  rw [withTimes_cpuTime _ _ _ (by decide) (by decide),
    withTimes_cpuTime _ _ _ (by decide) (by decide)]
  decide

/-- One second against thirty-three: the second process gets the higher priority. -/
theorem shortest_first_wraps :
    ¬ ∀ (s : Xinu) (p : Int) (t : Xinu) (q : Int) (u : Xinu) (r : Int), s.SjfUser p → t.SjfUser q →
      u.Waits p q → IsQueue r → ShortestFirst s p t q u r := by
  intro hall
  have hp : (sampleBoot.withTimes 1 33).SjfUser 1 := withTimes_user _ _ _ (by decide) (by decide)
  have hq : (sampleBoot.withTimes 1 33).SjfUser 2 := withTimes_user _ _ _ (by decide) (by decide)
  have hfirst := (hall _ 1 _ 2 _ readylist hp hq (sampleBoot_waits 1 33) isQueue_readylist).order.1
  rw [withTimes_cpuTime _ _ _ (by decide) (by decide),
    withTimes_cpuTime _ _ _ (by decide) (by decide), hp.setprio, hq.setprio,
    withTimes_cpuTime _ _ _ (by decide) (by decide),
    withTimes_cpuTime _ _ _ (by decide) (by decide)] at hfirst
  exact absurd (hfirst (by decide)) (by decide)

end

end BbbXinu
