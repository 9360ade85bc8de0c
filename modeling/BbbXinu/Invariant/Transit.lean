import BbbXinu.Invariant.Basic

/-!
# Processes in transit

How the hole of the invariant opens and closes, and what the queue operations
do to it.
-/

namespace BbbXinu

open LinkedLists KeyedLists

section

variable {w : Watch} {g : View} {x q : Int} {s : Xinu}

/-!
## Opening and closing the hole
-/

theorem not_validPid_empty : ¬ ValidPid EMPTY := by decide

theorem Inv.ne_empty (hI : Inv w g x s) {p : Int} (h : home (s.proctab p) = some q) :
    p ≠ EMPTY := by
  rintro rfl
  exact not_validPid_empty (hI.home_queue _ _ h).1

/-- A process that belongs on no queue is on none. -/
theorem Inv.off_of_home (hI : Inv w g x s) {p : Int} (h : home (s.proctab p) = none) (r : Int) :
    p ∉ lists s.queuetab r := by
  intro hm
  have h1 := ((hI.mem_iff r p).mp hm).1
  rw [h] at h1
  cases h1

/-- The process in transit is on no queue. -/
theorem Inv.off_hole (hI : Inv w g x s) (r : Int) : x ∉ lists s.queuetab r :=
  fun hm => ((hI.mem_iff r x).mp hm).2.1 rfl

theorem Inv.not_limbo_hole (hI : Inv w g x s) : ¬ g.limbo x := fun h => (hI.limbo x h).1 rfl

theorem Inv.not_lost_hole (hI : Inv w g x s) : ¬ g.lost x := fun h => (hI.lost x h).1 rfl

/-- The same state under another hole. -/
theorem Inv.rehole {y : Int} (hI : Inv w g x s)
    (hmem : ∀ q p, home (s.proctab p) = some q → (p = x ↔ p = y))
    (hlimbo : ∀ p, g.limbo p → p ≠ y) (hlost : ∀ p, g.lost p → p ≠ y) :
    Inv w g y s :=
  { hI with
    mem_iff := fun q p => by
      rw [hI.mem_iff q p]
      constructor
      · rintro ⟨h1, h2, h3⟩
        exact ⟨h1, fun he => h2 ((hmem q p h1).mpr he), h3⟩
      · rintro ⟨h1, h2, h3⟩
        exact ⟨h1, fun he => h2 ((hmem q p h1).mp he), h3⟩
    limbo := fun p hp => ⟨hlimbo p hp, (hI.limbo p hp).2⟩
    lost := fun p hp => ⟨hlost p hp, (hI.lost p hp).2⟩ }

/-- A process that belongs on no queue can be taken in hand. -/
theorem Inv.open_hole (hI : Inv w g EMPTY s) (hx : home (s.proctab x) = none) :
    Inv w g x s := by
  apply hI.rehole
  · intro q p hp
    constructor
    · intro he
      exact absurd he (hI.ne_empty hp)
    · rintro rfl
      rw [hx] at hp
      cases hp
  · rintro p hp rfl
    rw [home_ready (hI.limbo p hp).2.2] at hx
    cases hx
  · rintro p hp rfl
    rw [home_wait (hI.lost p hp).2] at hx
    cases hx

/-- A process that belongs on no queue can be let go. -/
theorem Inv.close_hole (hI : Inv w g x s) (hx : home (s.proctab x) = none) :
    Inv w g EMPTY s := by
  apply hI.rehole
  · intro q p hp
    constructor
    · rintro rfl
      rw [hx] at hp
      cases hp
    · intro he
      exact absurd he (hI.ne_empty hp)
  · intro p hp
    exact hI.ne_empty (home_ready (hI.limbo p hp).2.2)
  · intro p hp
    exact hI.ne_empty (home_wait (hI.lost p hp).2)

/-- The table entry of the process in transit can be changed. -/
theorem Inv.setProcLive (hI : Inv w g x s) {f : Procent → Procent}
    (hcurr : (f (s.proctab x)).prstate = .curr → x = s.currpid)
    (hhome : ∀ q, home (f (s.proctab x)) = some q → ValidPid x ∧ IsQueue q)
    (hwait : (f (s.proctab x)).prstate = .wait → WaitsOn (f (s.proctab x)).prsem)
    (hnull : x = NULLPROC →
      (f (s.proctab x)).prstate = .curr ∨ (f (s.proctab x)).prstate = .ready) :
    Inv w (g.setLive x ((f (s.proctab x)).prstate ≠ .free)) x (s.setProc x f) := by
  have hself : (s.setProc x f).proctab x = f (s.proctab x) := upd_self
  have hother : ∀ p, p ≠ x → (s.setProc x f).proctab p = s.proctab p :=
    fun p hp => upd_of_ne hp
  refine { hI with
    mem_iff := ?_, home_queue := ?_, waits_on := ?_, live := ?_, limbo := ?_, lost := ?_,
    curr_unique := ?_, null_state := ?_, keys := ?_ }
  · intro q p
    by_cases hp : p = x
    · have hl := hI.off_hole q
      rw [hp]
      exact ⟨fun h => absurd h hl, fun h => absurd rfl h.2.1⟩
    · rw [hother p hp]
      exact hI.mem_iff q p
  · intro p q hp
    by_cases hpx : p = x
    · rw [hpx] at hp ⊢
      rw [hself] at hp
      exact hhome q hp
    · rw [hother p hpx] at hp
      exact hI.home_queue p q hp
  · intro p hp
    by_cases hpx : p = x
    · rw [hpx] at hp ⊢
      rw [hself] at hp ⊢
      exact hwait hp
    · rw [hother p hpx] at hp ⊢
      exact hI.waits_on p hp
  · intro p
    show upd g.live x _ p ↔ _
    by_cases hpx : p = x
    · rw [hpx, upd_self, hself]
    · rw [upd_of_ne hpx, hother p hpx]
      exact hI.live p
  · intro p hp
    rw [hother p (hI.limbo p hp).1]
    exact hI.limbo p hp
  · intro p hp
    rw [hother p (hI.lost p hp).1]
    exact hI.lost p hp
  · intro p hp
    by_cases hpx : p = x
    · rw [hpx] at hp ⊢
      rw [hself] at hp
      exact hcurr hp
    · rw [hother p hpx] at hp
      exact hI.curr_unique p hp
  · by_cases hpx : NULLPROC = x
    · rw [hpx, hself]
      exact hnull hpx.symm
    · rw [hother _ hpx]
      exact hI.null_state
  · intro hw p hp
    have hpx : p ≠ x := fun he => hI.off_hole readylist (he ▸ hp)
    rw [hother p hpx]
    exact hI.keys hw p hp

theorem View.setLive_same {alive : Prop} (h : alive ↔ g.live x) : g.setLive x alive = g := by
  unfold View.setLive
  rw [propext h, upd_eq_self rfl]

theorem View.setLive_true {alive : Prop} (h : alive) : g.setLive x alive = g.setLive x True := by
  rw [propext (iff_true_intro h)]

theorem View.setLive_false {alive : Prop} (h : ¬ alive) :
    g.setLive x alive = g.setLive x False := by
  rw [propext (iff_false_intro h)]

theorem Inv.setProc (hI : Inv w g x s) {f : Procent → Procent}
    (hlive : (f (s.proctab x)).prstate ≠ .free ↔ (s.proctab x).prstate ≠ .free)
    (hcurr : (f (s.proctab x)).prstate = .curr → x = s.currpid)
    (hhome : ∀ q, home (f (s.proctab x)) = some q → ValidPid x ∧ IsQueue q)
    (hwait : (f (s.proctab x)).prstate = .wait → WaitsOn (f (s.proctab x)).prsem)
    (hnull : x = NULLPROC →
      (f (s.proctab x)).prstate = .curr ∨ (f (s.proctab x)).prstate = .ready) :
    Inv w g x (s.setProc x f) := by
  have h := hI.setProcLive hcurr hhome hwait hnull
  rw [View.setLive_same (hlive.trans (hI.live x).symm)] at h
  exact h

/-- A ready process in transit can be left in limbo. -/
theorem Inv.to_limbo (hI : Inv w g x s) (hx : (s.proctab x).prstate = .ready)
    (hnull : x ≠ NULLPROC) :
    Inv w (g.setLimbo fun p => p = x ∨ g.limbo p) EMPTY s := by
  refine { hI with mem_iff := ?_, limbo := ?_, lost := ?_ }
  · intro q p
    rw [hI.mem_iff q p]
    constructor
    · rintro ⟨h1, h2, h3, h4⟩
      exact ⟨h1, hI.ne_empty h1, not_or.mpr ⟨h2, h3⟩, h4⟩
    · rintro ⟨h1, _, h3, h4⟩
      exact ⟨h1, (not_or.mp h3).1, (not_or.mp h3).2, h4⟩
  · rintro p (rfl | hp)
    · exact ⟨hI.ne_empty (home_ready hx), hnull, hx⟩
    · exact ⟨hI.ne_empty (home_ready (hI.limbo p hp).2.2), (hI.limbo p hp).2⟩
  · intro p hp
    exact ⟨hI.ne_empty (home_wait (hI.lost p hp).2), (hI.lost p hp).2⟩

/-- A process in limbo can be taken in hand. -/
theorem Inv.from_limbo (hI : Inv w g EMPTY s) (hx : g.limbo x) :
    Inv w (g.setLimbo fun p => p ≠ x ∧ g.limbo p) x s := by
  refine { hI with mem_iff := ?_, limbo := ?_, lost := ?_ }
  · intro q p
    rw [hI.mem_iff q p]
    constructor
    · rintro ⟨h1, _, h3, h4⟩
      exact ⟨h1, fun he => h3 (he ▸ hx), fun h => h3 h.2, h4⟩
    · rintro ⟨h1, h2, h3, h4⟩
      exact ⟨h1, hI.ne_empty h1, fun h => h3 ⟨h2, h⟩, h4⟩
  · intro p hp
    exact ⟨hp.1, (hI.limbo p hp.2).2⟩
  · intro p hp
    refine ⟨?_, (hI.lost p hp).2⟩
    rintro rfl
    have h1 := (hI.lost p hp).2
    rw [(hI.limbo p hx).2.2] at h1
    cases h1

/-- A waiting process in transit can be dropped. -/
theorem Inv.to_lost (hI : Inv w g x s) (hx : (s.proctab x).prstate = .wait) :
    Inv w (g.setLost fun p => p = x ∨ g.lost p) EMPTY s := by
  refine { hI with mem_iff := ?_, limbo := ?_, lost := ?_ }
  · intro q p
    rw [hI.mem_iff q p]
    constructor
    · rintro ⟨h1, h2, h3, h4⟩
      exact ⟨h1, hI.ne_empty h1, h3, not_or.mpr ⟨h2, h4⟩⟩
    · rintro ⟨h1, _, h3, h4⟩
      exact ⟨h1, (not_or.mp h4).1, h3, (not_or.mp h4).2⟩
  · intro p hp
    exact ⟨hI.ne_empty (home_ready (hI.limbo p hp).2.2), (hI.limbo p hp).2⟩
  · rintro p (rfl | hp)
    · exact ⟨hI.ne_empty (home_wait hx), hx⟩
    · exact ⟨hI.ne_empty (home_wait (hI.lost p hp).2), (hI.lost p hp).2⟩

/-!
## Parts of the watch on their own
-/

/-- The watch without the ready count. -/
def Watch.uncount (w : Watch) : Watch := { w with count := False }

theorem Inv.uncount (hI : Inv w g x s) : Inv w.uncount g x s :=
  { hI with count := fun h => absurd h id }

theorem Inv.recount (hI : Inv w.uncount g x s)
    (h : w.count → s.readycount = (lists s.queuetab readylist).length) : Inv w g x s :=
  { hI with count := h }

/-- The watch without the differences on the sleep queue. -/
def Watch.undelay (w : Watch) : Watch := { w with delays := False }

theorem Inv.undelay (hI : Inv w g x s) : Inv w.undelay g x s :=
  { hI with delta := fun h => absurd h id }

theorem Inv.redelay (hI : Inv w.undelay g x s)
    (h : w.delays →
      Delta (fun p => (s.queuetab p).qkey) g.due 0 (lists s.queuetab sleepq)) :
    Inv w g x s :=
  { hI with delta := h }

theorem Inv.setReadycount (hI : Inv w.uncount g x s) (n : Nat) :
    Inv w.uncount g x (s.setReadycount n) :=
  { hI with count := fun h => absurd h id }

/-!
## Changing the queue table
-/

theorem Sentinels.congr {t t' : Int → Qentry} (h : Sentinels t)
    (hk : ∀ i, NPROC ≤ i → (t' i).qkey = (t i).qkey) : Sentinels t' := by
  intro q hq
  have h1 : NPROC ≤ q := hq.1
  have h2 : NPROC ≤ queuetail q := by
    unfold queuetail
    omega
  rw [hk q h1, hk _ h2]
  exact h q hq

theorem Inv.retable {t : Int → Qentry} {y : Int} {M : Int → List Int} (hI : Inv w g x s)
    (hQ : Queues t (lists t)) (hS : Sentinels t)
    (hmem : ∀ q p, p ∈ lists t q ↔
      home (s.proctab p) = some q ∧ p ≠ y ∧ ¬ g.limbo p ∧ ¬ g.lost p)
    (hlimbo : ∀ p, g.limbo p → p ≠ y) (hlost : ∀ p, g.lost p → p ≠ y)
    (hM : ∀ q, q ≠ readylist → lists t q = M q)
    (hcount : w.count → s.readycount = (lists t readylist).length)
    (hdesc : w.keys → Descending (fun p => (t p).qkey) (lists t readylist))
    (hkeys : w.keys → ∀ p ∈ lists t readylist, (t p).qkey = (s.proctab p).prprio)
    (hdelta : w.delays → Delta (fun p => (t p).qkey) g.due 0 (lists t sleepq)) :
    Inv w (g.setLists M) y (s.setQueuetab t) where
  queues := hQ
  sentinels := hS
  mem_iff := hmem
  home_queue := hI.home_queue
  waits_on := hI.waits_on
  live := hI.live
  limbo := fun p hp => ⟨hlimbo p hp, (hI.limbo p hp).2⟩
  lost := fun p hp => ⟨hlost p hp, (hI.lost p hp).2⟩
  squeue := hI.squeue
  rwqueue := hI.rwqueue
  valid_curr := hI.valid_curr
  valid_nextrwb := hI.valid_nextrwb
  curr_unique := hI.curr_unique
  null_state := hI.null_state
  lists_eq := hM
  tab := hI.tab
  flags := hI.flags
  frames := hI.frames
  defers := hI.defers
  count := hcount
  scheduler := hI.scheduler
  descending := hdesc
  keys := hkeys
  delta := hdelta

/-- Taking a process off its list opens the hole. -/
theorem Inv.remove {t : Int → Qentry} {M : Int → List Int} (hI : Inv w g EMPTY s)
    (hx : x ∈ lists s.queuetab q) (hc : w.count → q ≠ readylist)
    (hd : w.delays → q = sleepq → Delta (fun p => (s.queuetab p).qkey) g.due 0
      ((lists s.queuetab q).erase x))
    (hQ : Queues t (upd (lists s.queuetab) q ((lists s.queuetab q).erase x)))
    (hk : ∀ i, (t i).qkey = (s.queuetab i).qkey)
    (hM : ∀ r, r ≠ readylist →
      upd (lists s.queuetab) q ((lists s.queuetab q).erase x) r = M r) :
    Inv w (g.setLists M) x (s.setQueuetab t) := by
  have hq : IsQueue q := isQueue_of_mem hx
  have hl := hQ.lists_upd hq
  have hnd : (lists s.queuetab q).Nodup := hI.queues.nodup hq
  have hxq := (hI.mem_iff q x).mp hx
  have hsub : ∀ r, (lists t r).Sublist (lists s.queuetab r) := by
    intro r
    rw [hl, upd_apply]
    split
    · rename_i hr
      rw [hr]
      exact List.erase_sublist
    · exact List.Sublist.refl _
  apply hI.retable hQ.canon (hI.sentinels.congr fun i _ => hk i)
  · intro r p
    have hp := hI.mem_iff r p
    rw [hl, upd_apply]
    constructor
    · intro hm
      have hin : p ∈ lists s.queuetab r ∧ p ≠ x := by
        split at hm
        · rename_i hr
          rw [hr]
          rw [hnd.mem_erase_iff] at hm
          exact ⟨hm.2, hm.1⟩
        · rename_i hr
          refine ⟨hm, ?_⟩
          rintro rfl
          have h1 := (hp.mp hm).1
          rw [hxq.1] at h1
          exact hr (Option.some.inj h1).symm
      have h1 := hp.mp hin.1
      exact ⟨h1.1, hin.2, h1.2.2⟩
    · rintro ⟨h1, h2, h3⟩
      have hm : p ∈ lists s.queuetab r := hp.mpr ⟨h1, hI.ne_empty h1, h3⟩
      split
      · rename_i hr
        rw [hnd.mem_erase_iff]
        exact ⟨h2, hr ▸ hm⟩
      · exact hm
  · rintro p hp rfl
    exact hxq.2.2.1 hp
  · rintro p hp rfl
    exact hxq.2.2.2 hp
  · rw [hl]
    exact hM
  · intro hw
    rw [hl, upd_of_ne (hc hw).symm]
    exact hI.count hw
  · intro hw
    exact ((hI.descending hw).sublist (hsub readylist)).congr fun p _ => hk p
  · intro hw p hp
    rw [hk p]
    exact hI.keys hw p ((hsub readylist).subset hp)
  · intro hw
    have hdelta : Delta (fun p => (s.queuetab p).qkey) g.due 0 (lists t sleepq) := by
      rw [hl, upd_apply]
      split
      · rename_i hs
        exact hd hw hs.symm
      · exact hI.delta hw
    exact hdelta.congr (fun p _ => hk p) (fun _ _ => rfl)

/-- What a list that took up the process in transit contains. -/
theorem Inv.mem_added {t : Int → Qentry} {l : List Int} (hI : Inv w g x s)
    (hhome : home (s.proctab x) = some q) (hl : lists t = upd (lists s.queuetab) q l)
    (hmem : ∀ p, p ∈ l ↔ p = x ∨ p ∈ lists s.queuetab q) (r p : Int) :
    p ∈ lists t r ↔ home (s.proctab p) = some r ∧ p ≠ EMPTY ∧ ¬ g.limbo p ∧ ¬ g.lost p := by
  have hp := hI.mem_iff r p
  rw [hl, upd_apply]
  by_cases hpx : p = x
  · subst hpx
    have h3 := hI.ne_empty hhome
    have h4 := hI.not_limbo_hole
    have h5 := hI.not_lost_hole
    split
    · rename_i hr
      rw [hr, hmem]
      exact ⟨fun _ => ⟨hhome, h3, h4, h5⟩, fun _ => Or.inl rfl⟩
    · rename_i hr
      constructor
      · intro hm
        exact absurd rfl (hp.mp hm).2.1
      · intro h
        have h1 := h.1
        rw [hhome] at h1
        exact absurd (Option.some.inj h1).symm hr
  · have hiff : p ∈ lists s.queuetab r ↔
        home (s.proctab p) = some r ∧ p ≠ EMPTY ∧ ¬ g.limbo p ∧ ¬ g.lost p := by
      rw [hp]
      constructor
      · rintro ⟨h1, _, h3⟩
        exact ⟨h1, hI.ne_empty h1, h3⟩
      · rintro ⟨h1, _, h3⟩
        exact ⟨h1, hpx, h3⟩
    split
    · rename_i hr
      rw [← hiff, hr, hmem]
      exact ⟨fun h => h.resolve_left hpx, Or.inr⟩
    · exact hiff

theorem Inv.limbo_ne_empty (hI : Inv w g x s) (p : Int) (hp : g.limbo p) : p ≠ EMPTY :=
  hI.ne_empty (home_ready (hI.limbo p hp).2.2)

theorem Inv.lost_ne_empty (hI : Inv w g x s) (p : Int) (hp : g.lost p) : p ≠ EMPTY :=
  hI.ne_empty (home_wait (hI.lost p hp).2)

/-- Putting the process in transit at the end of a list of waiting processes
closes the hole. -/
theorem Inv.append {t : Int → Qentry} {M : Int → List Int} (hI : Inv w g x s)
    (hhome : home (s.proctab x) = some q) (hr : q ≠ readylist) (hs : q ≠ sleepq)
    (hQ : Queues t (upd (lists s.queuetab) q (lists s.queuetab q ++ [x])))
    (hk : ∀ i, (t i).qkey = (s.queuetab i).qkey)
    (hM : ∀ r, r ≠ readylist →
      upd (lists s.queuetab) q (lists s.queuetab q ++ [x]) r = M r) :
    Inv w (g.setLists M) EMPTY (s.setQueuetab t) := by
  have hl := hQ.lists_upd (hI.home_queue x q hhome).2
  have hready : lists t readylist = lists s.queuetab readylist := by
    rw [hl, upd_of_ne hr.symm]
  have hsleep : lists t sleepq = lists s.queuetab sleepq := by
    rw [hl, upd_of_ne hs.symm]
  apply hI.retable hQ.canon (hI.sentinels.congr fun i _ => hk i)
  · apply hI.mem_added hhome hl
    intro p
    rw [List.mem_append, List.mem_singleton, or_comm]
  · exact hI.limbo_ne_empty
  · exact hI.lost_ne_empty
  · rw [hl]
    exact hM
  · rw [hready]
    exact hI.count
  · intro hw
    rw [hready]
    exact (hI.descending hw).congr fun p _ => hk p
  · intro hw p hp
    rw [hready] at hp
    rw [hk p]
    exact hI.keys hw p hp
  · intro hw
    rw [hsleep]
    exact (hI.delta hw).congr (fun p _ => hk p) (fun _ _ => rfl)

/-- The view of the queues after one other than the ready list was replaced. -/
theorem Inv.lists_upd (hI : Inv w g x s) {l : List Int} (r : Int) (hr : r ≠ readylist) :
    upd (lists s.queuetab) q l r = upd g.lists q l r := by
  rw [upd_apply, upd_apply, hI.lists_eq r hr]

/-- The view does not see the ready list. -/
theorem Inv.lists_upd_ready (hI : Inv w g x s) {l : List Int} (r : Int)
    (hr : r ≠ readylist) : upd (lists s.queuetab) readylist l r = g.lists r := by
  rw [upd_of_ne hr]
  exact hI.lists_eq r hr

/-- {lit}`insert` into the ready list closes the hole. -/
theorem Inv.insertReady (hI : Inv w.uncount g x s) (hx : (s.proctab x).prstate = .ready)
    (hprio : 0 ≤ (s.proctab x).prprio)
    (hcount : w.count → s.readycount = (lists s.queuetab readylist).length + 1) :
    ∃ t, s.insert x readylist (s.proctab x).prprio = s.setQueuetab t ∧
      lists t = upd (lists s.queuetab) readylist
        (insertKey (fun p => (s.queuetab p).qkey) x (s.proctab x).prprio
          (lists s.queuetab readylist)) ∧
      Inv w g EMPTY (s.setQueuetab t) := by
  have hhome := home_ready hx
  have hv := (hI.home_queue x readylist hhome).1
  have hbad : ¬ s.isbadpid x := by
    rw [Xinu.not_isbadpid_iff, hx]
    exact ⟨hv, by decide⟩
  have hkey : MINKEY < (s.proctab x).prprio := by
    have h1 : MINKEY < 0 := by decide
    omega
  rcases Xinu.insert_spec hI.queues hI.sentinels isQueue_readylist hbad
    (fun r _ => hI.off_hole r) hkey with ⟨t, ht, hQ, hkx, hk⟩
  have hl := hQ.lists_upd isQueue_readylist
  have hready : lists t readylist = insertKey (fun p => (s.queuetab p).qkey) x
      (s.proctab x).prprio (lists s.queuetab readylist) := by
    rw [hl, upd_self]
  have hsleep : lists t sleepq = lists s.queuetab sleepq := by
    rw [hl, upd_of_ne (by decide)]
  have hkl : ∀ r, ∀ p ∈ lists s.queuetab r, (t p).qkey = (s.queuetab p).qkey := by
    intro r p hp
    apply hk
    rintro rfl
    exact hI.off_hole r hp
  refine ⟨t, ht, hl, ?_⟩
  apply Inv.recount
  · apply hI.retable hQ.canon
    · apply hI.sentinels.congr
      intro i hi
      apply hk
      have h1 := hv.2
      omega
    · apply hI.mem_added hhome hl
      intro p
      exact mem_insertKey
    · exact hI.limbo_ne_empty
    · exact hI.lost_ne_empty
    · rw [hl]
      exact hI.lists_upd_ready
    · exact fun h => absurd h id
    · intro hw
      rw [hready]
      exact (hI.descending hw).insertKey hkx (hkl readylist)
    · intro hw p hp
      rw [hready] at hp
      rcases mem_insertKey.mp hp with he | he
      · rw [he]
        exact hkx
      · rw [hkl readylist p he]
        exact hI.keys hw p he
    · intro hw
      rw [hsleep]
      exact (hI.delta hw).congr (hkl sleepq) (fun _ _ => rfl)
  · intro hw
    show s.readycount = (lists t readylist).length
    rw [hready, length_insertKey]
    exact hcount hw

end

end BbbXinu
