import BbbXinu.Invariant.Semaphores

/-!
# Sleeping, the clock and messages keep the invariant

The keys of the sleep queue are differences of due times, so joining, leaving
and ticking each change one key beside the links.
-/

namespace BbbXinu

open LinkedLists KeyedLists

section

variable {w : Watch} {g : View} {x q : Int} {s : Xinu}

/-!
## Changing keys of sleepers
-/

/-- Every due time on the sleep queue fits the type of a key. -/
def View.Bounded (g : View) : Prop := ∀ p ∈ g.lists sleepq, g.due p < 2147483648

theorem Inv.setDue (hI : Inv w.undelay g x s) (due : Int → Int) :
    Inv w.undelay (g.setDue due) x s :=
  { hI with delta := fun h => absurd h id }

theorem Inv.lists_sleepq (hI : Inv w g x s) : lists s.queuetab sleepq = g.lists sleepq :=
  hI.lists_eq sleepq (by decide)

theorem Inv.mem_sleepq (hI : Inv w g EMPTY s) {p : Int}
    (hp : (s.proctab p).prstate = .sleep ∨ (s.proctab p).prstate = .rectim) :
    p ∈ g.lists sleepq := by
  rw [← hI.lists_sleepq]
  refine (hI.mem_iff sleepq p).mpr ⟨home_sleep hp, hI.ne_empty (home_sleep hp), ?_, ?_⟩
  · intro h
    have h1 := (hI.limbo p h).2.2
    rcases hp with hp | hp <;> rw [hp] at h1 <;> cases h1
  · intro h
    have h1 := (hI.lost p h).2
    rcases hp with hp | hp <;> rw [hp] at h1 <;> cases h1

/-- Changing the key of a sleeper changes nothing but the differences. -/
theorem Inv.rekey {i : Int} {f : Qentry → Qentry} (hI : Inv w.undelay g x s)
    (hi : i ∈ lists s.queuetab sleepq) (hnext : ∀ e, (f e).qnext = e.qnext)
    (hprev : ∀ e, (f e).qprev = e.qprev) :
    Inv w.undelay g x (s.setQueue i f) ∧
      lists (s.setQueue i f).queuetab = lists s.queuetab := by
  have hQ : Queues (s.setQueue i f).queuetab (lists s.queuetab) := by
    unfold Queues
    rw [Xinu.setQueue_proj Qentry.qnext i f hnext, Xinu.setQueue_proj Qentry.qprev i f hprev]
    exact hI.queues
  have hl : lists (s.setQueue i f).queuetab = lists s.queuetab := by
    funext r
    by_cases hr : IsQueue r
    · exact hQ.lists_eq hr
    · rw [lists_of_not hr, lists_of_not hr]
  have hk : ∀ p, p ≠ i → ((s.setQueue i f).queuetab p).qkey = (s.queuetab p).qkey :=
    fun p hp => congrArg Qentry.qkey (upd_of_ne hp)
  have hready : ∀ p ∈ lists s.queuetab readylist, p ≠ i := by
    rintro p hp rfl
    have h1 := hI.queues.disjoint isQueue_readylist isQueue_sleepq hp hi
    exact absurd h1 (by decide)
  have hv : ValidPid i := hI.queues.node isQueue_sleepq hi
  refine ⟨?_, hl⟩
  apply hI.retable (M := g.lists) (t := (s.setQueue i f).queuetab)
  · exact hQ.canon
  · apply hI.sentinels.congr
    intro j hj
    apply hk
    have h1 := hv.2
    omega
  · rw [hl]
    exact hI.mem_iff
  · exact fun p hp => (hI.limbo p hp).1
  · exact fun p hp => (hI.lost p hp).1
  · rw [hl]
    exact hI.lists_eq
  · rw [hl]
    exact hI.count
  · intro hw
    rw [hl]
    exact (hI.descending hw).congr fun p hp => hk p (hready p hp)
  · intro hw p hp
    rw [hl] at hp
    rw [hk p (hready p hp)]
    exact hI.keys hw p hp
  · exact fun h => absurd h id

/-!
## Joining the sleep queue
-/

theorem recordCpuqdata_setQueuetab (s : Xinu) (t : Int → Qentry) (pid : Int) :
    (s.setQueuetab t).recordCpuqdata pid = (s.recordCpuqdata pid).setQueuetab t := by
  unfold Xinu.recordCpuqdata
  show (if s.envtab EV_CPUQDATA ≠ 0 ∨ s.envtab EV_SCHEDULER = QTYPE_SJF then
    if s.isbadpid pid then _ else _ else _) = _
  split
  · split
    · rfl
    · dsimp only
      show Xinu.setProc (if (s.proctab pid).timestatein.secs ≠ 0 ∨
        (s.proctab pid).timestatein.ms ≠ 0 then _ else _) pid _ = _
      split
      · show Xinu.setProc (Xinu.setProc (if pid ≠ 0 then _ else _) pid _) pid _ = _
        split <;> rfl
      · rfl
  · rfl

/-- The process in transit, recorded as asleep, joins the sleep queue. -/
theorem Inv.joinSleep {t : Int → Qentry} {l₁ l₂ : List Int} {key d : Int}
    (hI : Inv w g x s)
    (hstate : (s.proctab x).prstate = .sleep ∨ (s.proctab x).prstate = .rectim)
    (hsplit : lists s.queuetab sleepq = l₁ ++ l₂)
    (hQ : Queues t (upd (lists s.queuetab) sleepq (l₁ ++ x :: l₂)))
    (hk : ∀ i, (t i).qkey = if i = x then key
      else if l₂.head? = some i then int32 ((s.queuetab i).qkey - key)
      else (s.queuetab i).qkey)
    (hdelta : w.delays →
      Delta (fun p => (t p).qkey) (upd g.due x d) 0 (l₁ ++ x :: l₂)) :
    Inv w ((g.setList sleepq (l₁ ++ x :: l₂)).setDue (upd g.due x d)) EMPTY
      (s.setQueuetab t) := by
  have hhome := home_sleep hstate
  have hl := hQ.lists_upd isQueue_sleepq
  have hready : lists t readylist = lists s.queuetab readylist := by
    rw [hl, upd_of_ne (by decide)]
  have hother : ∀ i, i ∉ lists s.queuetab sleepq → i ≠ x →
      (t i).qkey = (s.queuetab i).qkey := by
    intro i hi hix
    rw [hk, if_neg hix, if_neg]
    intro hh
    apply hi
    rw [hsplit]
    exact List.mem_append_right l₁ (List.mem_of_mem_head? hh)
  have hkready : ∀ p ∈ lists s.queuetab readylist, (t p).qkey = (s.queuetab p).qkey := by
    intro p hp
    apply hother
    · intro h
      have h1 := hI.queues.disjoint isQueue_readylist isQueue_sleepq hp h
      exact absurd h1 (by decide)
    · rintro rfl
      exact hI.off_hole readylist hp
  have hret : Inv w.undelay (g.setList sleepq (l₁ ++ x :: l₂)) EMPTY (s.setQueuetab t) := by
    apply hI.undelay.retable hQ.canon
    · apply hI.sentinels.congr
      intro i hi
      have hnv : ¬ ValidPid i := fun h => by
        have h1 := h.2
        omega
      apply hother
      · exact fun h => hnv (hI.queues.node isQueue_sleepq h)
      · rintro rfl
        exact hnv (hI.home_queue _ _ hhome).1
    · apply hI.mem_added hhome hl
      intro p
      rw [hsplit, List.mem_append, List.mem_cons, List.mem_append]
      exact ⟨fun h => by rcases h with h | h | h <;> simp [h],
        fun h => by rcases h with h | h | h <;> simp [h]⟩
    · exact hI.limbo_ne_empty
    · exact hI.lost_ne_empty
    · rw [hl]
      exact hI.lists_upd
    · rw [hready]
      exact hI.count
    · intro hw
      rw [hready]
      exact (hI.descending hw).congr hkready
    · intro hw p hp
      rw [hready] at hp
      rw [hkready p hp]
      exact hI.keys hw p hp
    · exact fun h => absurd h id
  apply (hret.setDue _).redelay
  intro hw
  show Delta (fun p => (t p).qkey) (upd g.due x d) 0 (lists t sleepq)
  rw [hl, upd_self]
  exact hdelta hw

/-- The key that {lit}`insertd` leaves makes the differences right. -/
theorem delta_insertd {t : Int → Qentry} {l₁ l₂ : List Int} {key d : Int}
    (hI : Inv w g x s) (hw : w.delays) (hbound : g.Bounded) (hpos : 0 ≤ d)
    (hd : d < 2147483648)
    (hrun : Xinu.deltaSplit (fun p => (s.queuetab p).qkey) d (lists s.queuetab sleepq) =
      (l₁, l₂, key))
    (hk : ∀ i, (t i).qkey = if i = x then key
      else if l₂.head? = some i then int32 ((s.queuetab i).qkey - key)
      else (s.queuetab i).qkey)
    (hx : x ∉ lists s.queuetab sleepq) :
    Delta (fun p => (t p).qkey) (upd g.due x d) 0 (l₁ ++ x :: l₂) := by
  have hdelta := hI.delta hw
  have hnd : (lists s.queuetab sleepq).Nodup := hI.queues.nodup isQueue_sleepq
  have hb : ∀ y ∈ lists s.queuetab sleepq, g.due y < 2147483648 := by
    intro y hy
    rw [hI.lists_sleepq] at hy
    exact hbound y hy
  exact (Xinu.delta_insertd hdelta hnd hx hb hpos hd hrun hk).1

/-- The running process joins the sleep queue. -/
theorem sleepOn_inv {f : Procent → Procent} {c : Frame} {d : Int} (hO : Ok w g s)
    (hnull : s.currpid ≠ NULLPROC) (hc : c.tracked = false)
    (hstate : ∀ e, (f e).prstate = .sleep ∨ (f e).prstate = .rectim)
    (hd : w.delays → g.Bounded ∧ 0 ≤ d ∧ d < 2147483648) :
    (s.insertd s.currpid sleepq d).1 = OK ∧
    ∃ l₁ l₂ t, g.lists sleepq = l₁ ++ l₂ ∧
      (s.insertd s.currpid sleepq d).2 = s.setQueuetab t ∧
      Inv w ((g.setList sleepq (l₁ ++ s.currpid :: l₂)).setDue (upd g.due s.currpid d)) EMPTY
        ((((s.insertd s.currpid sleepq d).2.push c).recordCpuqdata
          ((s.insertd s.currpid sleepq d).2.push c).currpid).setProc
            (((s.insertd s.currpid sleepq d).2.push c).recordCpuqdata
              ((s.insertd s.currpid sleepq d).2.push c).currpid).currpid f) := by
  have hbad : ¬ s.isbadpid s.currpid := by
    rw [Xinu.not_isbadpid_iff, hO.curr]
    exact ⟨hO.inv.valid_curr, by decide⟩
  have hoff : ∀ r, s.currpid ∉ lists s.queuetab r := hO.inv.off_of_home (home_curr hO.curr)
  rcases Xinu.insertd_spec d hO.inv.queues isQueue_sleepq hbad (fun r _ => hoff r)
    with ⟨t, l₁, l₂, key, hrun, happ, ht, hQ, hk⟩
  rw [ht]
  refine ⟨rfl, l₁, l₂, t, hO.inv.lists_sleepq ▸ happ, rfl, ?_⟩
  dsimp only
  have hpush : (s.setQueuetab t).push c = (s.push c).setQueuetab t := rfl
  rw [hpush, recordCpuqdata_setQueuetab]
  show Inv w _ EMPTY (Xinu.setQueuetab
    (((s.push c).recordCpuqdata s.currpid).setProc
      ((s.push c).recordCpuqdata s.currpid).currpid f) t)
  have hq : Quiet s ((s.push c).recordCpuqdata s.currpid) :=
    (quiet_push s hc).trans (quiet_recordCpuqdata _ _)
  generalize (s.push c).recordCpuqdata s.currpid = s₁ at hq ⊢
  have hI₁ := (hO.quiet hq).inv
  have hcurr₁ := (hO.quiet hq).curr
  have hset : Inv w g s₁.currpid (s₁.setProc s₁.currpid f) := by
    apply (hI₁.open_hole (home_curr hcurr₁)).setProc
    · rw [hcurr₁]
      refine iff_of_true (fun h => ?_) (fun h => by cases h)
      rcases hstate (s₁.proctab s₁.currpid) with h1 | h1 <;> simp [h1] at h
    · intro h
      rcases hstate (s₁.proctab s₁.currpid) with h1 | h1 <;> simp [h1] at h
    · intro r hr
      rw [home_sleep (hstate _)] at hr
      cases hr
      exact ⟨hI₁.valid_curr, isQueue_sleepq⟩
    · intro h
      rcases hstate (s₁.proctab s₁.currpid) with h1 | h1 <;> simp [h1] at h
    · rw [hq.currpid]
      exact fun h => absurd h hnull
  have hstate₁ : ((s₁.setProc s₁.currpid f).proctab s₁.currpid).prstate = .sleep ∨
      ((s₁.setProc s₁.currpid f).proctab s₁.currpid).prstate = .rectim := by
    rw [setProc_self]
    exact hstate _
  have htab : (s₁.setProc s₁.currpid f).queuetab = s.queuetab := hq.queuetab
  generalize s₁.setProc s₁.currpid f = s₂ at hset hstate₁ htab ⊢
  rw [hq.currpid] at hset hstate₁
  rw [← htab] at happ hQ hk hrun hoff
  exact hset.joinSleep (d := d) hstate₁ happ hQ hk fun hw =>
    delta_insertd hset hw (hd hw).1 (hd hw).2.1 (hd hw).2.2 hrun hk (hoff sleepq)

/-- The running process goes to sleep. -/
theorem sleepOn_ok {f : Procent → Procent} {c : Frame} {d : Int} (hO : Ok w g s)
    (hdef : g.defers = 0) (hnull : s.currpid ≠ NULLPROC) (hc : c.tracked = false)
    (hstate : ∀ e, (f e).prstate = .sleep ∨ (f e).prstate = .rectim)
    (hd : w.delays → g.Bounded ∧ 0 ≤ d ∧ d < 2147483648) :
    (s.insertd s.currpid sleepq d).1 = OK ∧
    ∃ l₁ l₂, g.lists sleepq = l₁ ++ l₂ ∧
      Ok w ((g.setList sleepq (l₁ ++ s.currpid :: l₂)).setDue (upd g.due s.currpid d))
        ((((s.insertd s.currpid sleepq d).2.push c).recordCpuqdata
          ((s.insertd s.currpid sleepq d).2.push c).currpid).setProc
            (((s.insertd s.currpid sleepq d).2.push c).recordCpuqdata
              ((s.insertd s.currpid sleepq d).2.push c).currpid).currpid f).resched := by
  rcases sleepOn_inv hO hnull hc hstate hd with ⟨hok, l₁, l₂, t, happ, _, hI⟩
  exact ⟨hok, l₁, l₂, happ, resched_ok hI (Or.inl (Int.le_of_eq hdef))⟩

theorem sleepms_ok (hO : Ok w g s) (hdef : g.defers = 0) {delay : Nat}
    (hnull : s.currpid = NULLPROC → ¬ s.blocks (.sleepms delay))
    (hd : w.delays → g.Bounded ∧ (s.blocks (.sleepms delay) → (delay : Int) < 2147483648)) :
    (delay = 0 ∧ Ok w g (s.sleepms delay)) ∨
      delay ≠ 0 ∧ ∃ l₁ l₂, g.lists sleepq = l₁ ++ l₂ ∧
        Ok w ((g.setList sleepq (l₁ ++ s.currpid :: l₂)).setDue
          (upd g.due s.currpid (int32 delay))) (s.sleepms delay) := by
  unfold Xinu.sleepms
  split
  · rename_i hzero
    exact Or.inl ⟨hzero, yield_ok hO⟩
  · rename_i hne
    right
    refine ⟨hne, ?_⟩
    rcases sleepOn_ok (d := int32 delay) (c := .ret OK)
      (f := fun e => { e with prstate := .sleep }) hO hdef (fun h => hnull h hne) rfl
      (fun _ => Or.inl rfl) (fun hw => by
        have h1 := (hd hw).2 hne
        rw [int32_eq (by omega) h1]
        exact ⟨(hd hw).1, by omega, h1⟩) with ⟨hok, l₁, l₂, happ, hO'⟩
    refine ⟨l₁, l₂, happ, ?_⟩
    dsimp only
    rw [hok, if_neg (by decide)]
    exact hO'

theorem quiet_setMsg (s : Xinu) (pid : Int) (b : Bool) :
    Quiet s (s.setProc pid fun e => { e with prhasmsg := b }) :=
  quiet_setProc s pid (fun _ => rfl) (fun _ => rfl) (fun _ => rfl)

theorem receiveEnd_ok (hO : Ok w g s) : Ok w g s.receiveEnd :=
  (hO.quiet (quiet_setMsg s s.currpid false)).ret _

theorem recvtimeEnd_ok (hO : Ok w g s) : Ok w g s.recvtimeEnd := by
  unfold Xinu.recvtimeEnd
  split
  · exact (hO.quiet (quiet_setMsg s s.currpid false)).ret _
  · exact hO.ret _

theorem recvclr_ok (hO : Ok w g s) : Ok w g s.recvclr := by
  unfold Xinu.recvclr
  split
  · exact (hO.quiet (quiet_setMsg s s.currpid false)).ret _
  · exact hO.ret _

theorem receive_ok (hO : Ok w g s) (hdef : g.defers = 0)
    (hnull : s.currpid = NULLPROC → ¬ s.blocks .receive) : Ok w g s.receive := by
  unfold Xinu.receive
  split
  · rename_i hmsg
    dsimp only
    have hq : Quiet s ((s.push .receive).recordCpuqdata (s.push .receive).currpid) :=
      (quiet_push s rfl).trans (quiet_recordCpuqdata _ _)
    generalize (s.push .receive).recordCpuqdata (s.push .receive).currpid = s₁ at hq ⊢
    apply stop_ok (hO.quiet hq) (Int.le_of_eq hdef)
    · rw [hq.currpid]
      exact fun h => hnull h hmsg
    · exact fun h => by cases h
    · exact home_recv rfl
    · exact fun h => by cases h
  · exact receiveEnd_ok hO

theorem recvtime_ok (hO : Ok w g s) (hdef : g.defers = 0) {maxwait : Int}
    (hnull : s.currpid = NULLPROC → ¬ s.blocks (.recvtime maxwait))
    (hd : w.delays → g.Bounded ∧ (s.blocks (.recvtime maxwait) → maxwait < 2147483648)) :
    (¬ s.blocks (.recvtime maxwait) ∧ Ok w g (s.recvtime maxwait)) ∨
      s.blocks (.recvtime maxwait) ∧ ∃ l₁ l₂, g.lists sleepq = l₁ ++ l₂ ∧
        Ok w ((g.setList sleepq (l₁ ++ s.currpid :: l₂)).setDue
          (upd g.due s.currpid maxwait)) (s.recvtime maxwait) := by
  unfold Xinu.recvtime
  split
  · rename_i hneg
    left
    refine ⟨?_, hO.ret _⟩
    intro h
    have h1 := h.1
    omega
  · rename_i hpos
    split
    · rename_i hmsg
      right
      have hblocks : s.blocks (.recvtime maxwait) := ⟨Int.not_lt.mp hpos, hmsg⟩
      refine ⟨hblocks, ?_⟩
      rcases sleepOn_ok (d := maxwait) (c := .recvtime)
        (f := fun e => { e with prstate := .rectim }) hO hdef (fun h => hnull h hblocks) rfl
        (fun _ => Or.inr rfl) (fun hw => ⟨(hd hw).1, by omega, (hd hw).2 hblocks⟩) with
        ⟨hok, l₁, l₂, happ, hO'⟩
      refine ⟨l₁, l₂, happ, ?_⟩
      dsimp only
      rw [hok, if_neg (by decide)]
      exact hO'
    · rename_i hmsg
      left
      exact ⟨fun h => hmsg h.2, recvtimeEnd_ok hO⟩

end

end BbbXinu
