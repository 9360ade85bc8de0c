import BbbXinu.Invariant.Kept
import BbbXinu.Invariant.Kill

/-!
# What semaphore calls release

Each unit that is signalled while the count is negative releases the first
process of the queue.  As long as the length of the queue is what the count says,
the loops of {lit}`signaln` and {lit}`semdelete` release a prefix of the queue,
and {lit}`semreset` releases all of it.
-/

namespace BbbXinu

open LinkedLists KeyedLists

section

variable {w : Watch} {g : View} {x q sem : Int} {s : Xinu} {p : Int}

/-!
## One process
-/

theorem readyDequeue_alive (hO : Ok w g s) (hq : IsQueue q) (hr : q ≠ readylist)
    (hp : p ∈ (g.lists q).take 1 ∨ s.Alive p) : (s.readyDequeue q).Alive p := by
  have heq := hO.inv.lists_eq q hr
  unfold Xinu.readyDequeue
  cases hL : g.lists q with
  | nil =>
      rw [hL] at hp
      rw [Xinu.dequeue_nil hO.inv.queues hq (heq.trans hL), ready_bad (isbadpid_empty s)]
      exact hp.resolve_left (by simp)
  | cons pid l =>
      rw [hL] at hp
      have hmem : pid ∈ lists s.queuetab q := by
        rw [heq.trans hL]
        exact List.mem_cons_self
      rcases Xinu.dequeue_cons hO.inv.queues hq (heq.trans hL) with ⟨t, ht, _, _⟩
      have hgood : ¬ (s.setQueuetab t).isbadpid pid := hO.inv.good_of_mem hmem
      have hp' : p = pid ∨ (s.setQueuetab t).Alive p := by
        apply hp.imp_left
        intro h
        simpa using h
      rw [ht]
      exact alive_ready hgood hp'

theorem readyGetfirst_alive (hO : Ok w g s) (hq : IsQueue q) (hr : q ≠ readylist)
    (hp : p ∈ (g.lists q).take 1 ∨ s.Alive p) :
    ((s.getfirst q).2.ready (s.getfirst q).1).Alive p := by
  have heq := hO.inv.lists_eq q hr
  cases hL : g.lists q with
  | nil =>
      rw [hL] at hp
      rw [Xinu.getfirst_nil hO.inv.queues hq (heq.trans hL), ready_bad (isbadpid_empty s)]
      exact hp.resolve_left (by simp)
  | cons pid l =>
      rw [hL] at hp
      have hmem : pid ∈ lists s.queuetab q := by
        rw [heq.trans hL]
        exact List.mem_cons_self
      rcases Xinu.getfirst_cons hO.inv.queues hq (heq.trans hL) with ⟨t, ht, _, _⟩
      have hgood : ¬ (s.setQueuetab t).isbadpid pid := hO.inv.good_of_mem hmem
      have hp' : p = pid ∨ (s.setQueuetab t).Alive p := by
        apply hp.imp_left
        intro h
        simpa using h
      rw [ht]
      exact alive_ready hgood hp'

theorem alive_deferStop (hp : s.Alive p) : (s.reschedCntl DEFER_STOP).Alive p := by
  rw [reschedCntl_stop]
  unfold Xinu.deferStop
  split
  · exact hp
  · dsimp only
    split
    · exact alive_resched hp
    · exact hp

/-!
## Prefixes of the queue
-/

/-- The queue after the first processes were released. -/
def View.served (g : View) (q : Int) (n : Nat) : View := g.setList q ((g.lists q).drop n)

theorem View.served_pop (g : View) (q : Int) (n : Nat) :
    (g.pop q).served q n = g.served q (n + 1) := by
  unfold View.served View.pop
  rw [View.setList_setList, View.setList_at, List.drop_tail]

theorem View.served_zero (g : View) (q : Int) : g.served q 0 = g := by
  unfold View.served
  rw [List.drop_zero, View.setList_self]

/-- The units given to a semaphore released the first processes of its queue. -/
structure Signalled (w : Watch) (g : View) (sem : Int) (n : Nat) (s s' : Xinu) : Prop where
  ok : Ok w (g.served (semq sem) n) s'
  alive : ∀ p, p ∈ (g.lists (semq sem)).take n ∨ s.Alive p → s'.Alive p
  semtab : s'.semtab =
    upd s.semtab sem { s.semtab sem with scount := (s.semtab sem).scount + n }

/-- The queue is as long as the count says. -/
def View.Sized (g : View) (s : Xinu) (sem : Int) : Prop :=
  (g.lists (semq sem)).length = (-(s.semtab sem).scount).toNat

theorem Signalled.zero (hO : Ok w g s) : Signalled w g sem 0 s s where
  ok := by
    rw [View.served_zero]
    exact hO
  alive := fun p hp => hp.resolve_left (by simp)
  semtab := by
    rw [Int.natCast_zero, Int.add_zero]
    exact (upd_eq_self rfl).symm

theorem Signalled.step {n : Nat} {s₁ s' : Xinu}
    (halive : ∀ p, p ∈ (g.lists (semq sem)).take 1 ∨ s.Alive p → s₁.Alive p)
    (hsemtab : s₁.semtab =
      upd s.semtab sem { s.semtab sem with scount := (s.semtab sem).scount + 1 })
    (h : Signalled w (g.pop (semq sem)) sem n s₁ s') : Signalled w g sem (n + 1) s s' where
  ok := by
    rw [← View.served_pop]
    exact h.ok
  alive := by
    intro p hp
    have htake : (g.lists (semq sem)).take (n + 1) =
        (g.lists (semq sem)).take 1 ++ (g.lists (semq sem)).tail.take n := by
      cases g.lists (semq sem) with
      | nil => simp
      | cons a l => simp
    apply h.alive
    unfold View.pop
    rw [View.setList_at]
    rw [htake, List.mem_append] at hp
    rcases hp with (hp | hp) | hp
    · exact Or.inr (halive p (Or.inl hp))
    · exact Or.inl hp
    · exact Or.inr (halive p (Or.inr hp))
  semtab := by
    have hcount : (s.semtab sem).scount + ((n + 1 : Nat) : Int) =
        (s.semtab sem).scount + 1 + n := by
      push_cast
      omega
    rw [h.semtab, hsemtab, upd_self, upd_upd, hcount]

theorem View.Sized.pop {s₁ : Xinu} (h : g.Sized s sem)
    (hcount : (s₁.semtab sem).scount = (s.semtab sem).scount + 1) :
    (g.pop (semq sem)).Sized s₁ sem := by
  unfold View.Sized View.pop at *
  rw [View.setList_at, List.length_tail, h, hcount]
  omega

/-- The call {lit}`signal`, and each round of {lit}`signaln`. -/
theorem signalOne_moves (hO : Ok w g s) (hgood : ¬ isbadsem sem) (hsized : g.Sized s sem) :
    Ok w (g.pop (semq sem))
        (if (s.semtab sem).scount < 0 then
          (s.setSem sem fun e => { e with scount := int32 (e.scount + 1) }).readyDequeue
            ((s.setSem sem fun e => { e with scount := int32 (e.scount + 1) }).semtab
              sem).squeue
        else s.setSem sem fun e => { e with scount := int32 (e.scount + 1) }) ∧
      ∀ p, p ∈ (g.lists (semq sem)).take 1 ∨ s.Alive p →
        (if (s.semtab sem).scount < 0 then
          (s.setSem sem fun e => { e with scount := int32 (e.scount + 1) }).readyDequeue
            ((s.setSem sem fun e => { e with scount := int32 (e.scount + 1) }).semtab
              sem).squeue
        else s.setSem sem fun e => { e with scount := int32 (e.scount + 1) }).Alive p := by
  have hO₁ := hO.quiet (quiet_setSem s sem
    (f := fun e => { e with scount := int32 (e.scount + 1) }) fun _ => rfl)
  split
  · rw [hO₁.inv.squeue sem hgood]
    constructor
    · exact readyDequeue_ok hO₁ (isQueue_semq hgood) (semq_ne_readylist hgood)
        (semq_ne_sleepq hgood)
    · intro p hp
      exact readyDequeue_alive hO₁ (isQueue_semq hgood) (semq_ne_readylist hgood) hp
  · rename_i hcount
    have hnil : g.lists (semq sem) = [] := by
      apply List.length_eq_zero_iff.mp
      unfold View.Sized at hsized
      omega
    constructor
    · rw [View.pop_nil hnil]
      exact hO₁
    · intro p hp
      rw [hnil] at hp
      exact hp.resolve_left (by simp)

theorem signalnLoop_moves (hgood : ¬ isbadsem sem) (n : Nat) (hO : Ok w g s)
    (hsized : g.Sized s sem) (hlow : -2147483648 ≤ (s.semtab sem).scount)
    (hhigh : (s.semtab sem).scount + n < 2147483648) :
    Signalled w g sem n s (Xinu.signalnLoop sem n s) := by
  induction n generalizing g s with
  | zero => exact .zero hO
  | succ n ih =>
      rcases signalOne_moves hO hgood hsized with ⟨hok, halive⟩
      have hsemtab : (if (s.semtab sem).scount < 0 then
          (s.setSem sem fun e => { e with scount := int32 (e.scount + 1) }).readyDequeue
            ((s.setSem sem fun e => { e with scount := int32 (e.scount + 1) }).semtab
              sem).squeue
          else s.setSem sem fun e => { e with scount := int32 (e.scount + 1) }).semtab =
            upd s.semtab sem { s.semtab sem with scount := (s.semtab sem).scount + 1 } := by
        have hint : int32 ((s.semtab sem).scount + 1) = (s.semtab sem).scount + 1 :=
          int32_eq (by omega) (by push_cast at hhigh; omega)
        rw [← hint]
        split
        · rw [readyDequeue_semtab]
          rfl
        · rfl
      unfold Xinu.signalnLoop
      dsimp only at hok halive hsemtab ⊢
      generalize (if (s.semtab sem).scount < 0 then _ else _ : Xinu) = s₁
        at hok halive hsemtab ⊢
      have hself : s₁.semtab sem =
          { s.semtab sem with scount := (s.semtab sem).scount + 1 } := by
        rw [hsemtab, upd_self]
      have hcount : (s₁.semtab sem).scount = (s.semtab sem).scount + 1 := by rw [hself]
      apply Signalled.step halive hsemtab
      apply ih hok (hsized.pop hcount)
      · rw [hcount]
        omega
      · rw [hcount]
        push_cast at hhigh
        omega

theorem semdeleteLoop_moves (hgood : ¬ isbadsem sem) (n : Nat) (hO : Ok w g s) :
    Signalled w g sem n s (Xinu.semdeleteLoop sem n s) := by
  induction n generalizing g s with
  | zero => exact .zero hO
  | succ n ih =>
      have hO₁ := hO.quiet (quiet_setSem s sem
        (f := fun e => { e with scount := e.scount + 1 }) fun _ => rfl)
      have hsq := hO₁.inv.squeue sem hgood
      unfold Xinu.semdeleteLoop
      dsimp only
      have hok := readyGetfirst_ok hO₁ (isQueue_semq hgood) (semq_ne_readylist hgood)
        (semq_ne_sleepq hgood)
      have halive : ∀ p, p ∈ (g.lists (semq sem)).take 1 ∨ s.Alive p → _ := fun p hp =>
        readyGetfirst_alive (p := p) hO₁ (isQueue_semq hgood) (semq_ne_readylist hgood) hp
      rw [hsq]
      apply Signalled.step halive _ (ih hok)
      rw [ready_semtab, getfirst_semtab]
      rfl

/-- {lit}`semreset` releases everybody. -/
theorem readyAll_moves (hq : IsQueue q) (hr : q ≠ readylist) (hs : q ≠ sleepq) (n : Nat)
    (hO : Ok w g s) (hlen : (g.lists q).length < n) :
    Ok w (g.setList q []) (Xinu.readyAll q n s) ∧
      ∀ p, p ∈ g.lists q ∨ s.Alive p → (Xinu.readyAll q n s).Alive p := by
  induction n generalizing g s with
  | zero => exact absurd hlen (Nat.not_lt_zero _)
  | succ n ih =>
      have heq := hO.inv.lists_eq q hr
      have hok := readyGetfirst_ok hO hq hr hs
      have halive : ∀ p, p ∈ (g.lists q).take 1 ∨ s.Alive p → _ := fun p hp =>
        readyGetfirst_alive (p := p) hO hq hr hp
      unfold Xinu.readyAll
      dsimp only
      cases hL : g.lists q with
      | nil =>
          have hnil := Xinu.getfirst_nil hO.inv.queues hq (heq.trans hL)
          rw [hnil, if_pos rfl]
          have hsame : g.setList q [] = g := by
            rw [← hL]
            exact View.setList_self g q
          rw [hsame]
          exact ⟨hO, fun p hp => hp.resolve_left (by simp)⟩
      | cons pid l =>
          have hmem : pid ∈ lists s.queuetab q := by
            rw [heq.trans hL]
            exact List.mem_cons_self
          rcases Xinu.getfirst_cons hO.inv.queues hq (heq.trans hL) with ⟨t, ht, _, _⟩
          have hne : ¬ (s.getfirst q).1 = EMPTY := by
            rw [ht]
            have hhome := ((hO.inv.mem_iff q pid).mp hmem).1
            exact hO.inv.ne_empty hhome
          rw [if_neg hne]
          have htail : (g.pop q).lists q = l := by
            unfold View.pop
            rw [View.setList_at, hL, List.tail_cons]
          have hlen₁ : ((g.pop q).lists q).length < n := by
            rw [htail]
            rw [hL, List.length_cons] at hlen
            omega
          rcases ih hok hlen₁ with ⟨hok₁, halive₁⟩
          constructor
          · have hview : (g.pop q).setList q [] = g.setList q [] := View.setList_setList g q _ _
            rw [hview] at hok₁
            exact hok₁
          · intro p hp
            apply halive₁
            rw [htail]
            rw [hL] at halive
            rcases hp with hp | hp
            · rcases List.mem_cons.mp hp with he | he
              · right
                exact halive p (Or.inl (by simp [he]))
              · exact Or.inl he
            · exact Or.inr (halive p (Or.inr hp))

end

/-!
## Calls
-/

/-- The semaphore exists and is in use. -/
def Xinu.SemUsable (s : Xinu) (sem : Int) : Prop :=
  ¬ isbadsem sem ∧ (s.semtab sem).sstate = .used

instance (s : Xinu) (sem : Int) : Decidable (s.SemUsable sem) :=
  inferInstanceAs (Decidable (_ ∧ _))

section Calls

variable {w : Watch} {g : View} {sem : Int} {s : Xinu}

theorem Xinu.SemUsable.ne_free (h : s.SemUsable sem) : (s.semtab sem).sstate ≠ .free := by
  rw [h.2]
  exact fun h => by cases h

theorem sem_unusable (h : ¬ s.SemUsable sem) :
    isbadsem sem ∨ (s.semtab sem).sstate = .free := by
  by_contra hc
  have hor := not_or.mp hc
  exact h ⟨hor.1, sstate_ne_free hor.2⟩

theorem wait_bad (h : ¬ s.SemUsable sem) : s.wait sem = s.ret SYSERR := by
  unfold Xinu.wait
  split
  · rfl
  · rename_i hgood
    rw [if_pos ((sem_unusable h).resolve_left hgood)]

theorem signal_bad (h : ¬ s.SemUsable sem) : s.signal sem = s.ret SYSERR := by
  unfold Xinu.signal
  split
  · rfl
  · rename_i hgood
    rw [if_pos ((sem_unusable h).resolve_left hgood)]

theorem signaln_bad {count : Int} (h : ¬ (0 ≤ count ∧ s.SemUsable sem)) :
    s.signaln sem count = s.ret SYSERR := by
  unfold Xinu.signaln
  split
  · rfl
  · rename_i hgood
    have hor := not_or.mp hgood
    have hu : ¬ s.SemUsable sem := fun hu => h ⟨Int.not_lt.mp hor.2, hu⟩
    rw [if_pos ((sem_unusable hu).resolve_left hor.1)]

theorem semreset_bad {count : Int} (h : ¬ (0 ≤ count ∧ s.SemUsable sem)) :
    s.semreset sem count = s.ret SYSERR := by
  unfold Xinu.semreset
  rw [if_pos]
  by_cases hcount : count < 0
  · exact Or.inl hcount
  · have hu : ¬ s.SemUsable sem := fun hu => h ⟨Int.not_lt.mp hcount, hu⟩
    exact Or.inr (sem_unusable hu)

theorem semdelete_bad (h : ¬ s.SemUsable sem) : s.semdelete sem = s.ret SYSERR := by
  unfold Xinu.semdelete
  split
  · rfl
  · rename_i hgood
    rw [if_pos ((sem_unusable h).resolve_left hgood)]

/-- A caller that finds no unit joins the end of the queue. -/
theorem wait_moves (hO : Ok w g s) (hd : g.defers = 0) (hu : s.SemUsable sem)
    (hnull : s.currpid = NULLPROC → ¬ s.blocks (.wait sem)) :
    Ok w (if int32 ((s.semtab sem).scount - 1) < 0 then g.append (semq sem) s.currpid else g)
        (s.wait sem) ∧
      (s.wait sem).semtab = upd s.semtab sem
        { s.semtab sem with scount := int32 ((s.semtab sem).scount - 1) } := by
  have hgood := hu.1
  have hq₁ : Quiet s (s.setSem sem fun e => { e with scount := int32 (e.scount - 1) }) :=
    quiet_setSem s sem fun _ => rfl
  unfold Xinu.wait
  rw [if_neg hgood, if_neg hu.ne_free]
  dsimp only
  rw [setSem_self]
  dsimp only
  split
  · rename_i hcount
    have hblocks : s.blocks (.wait sem) := ⟨hgood, hu.2, hcount⟩
    constructor
    · generalize (s.setSem sem fun e => { e with scount := int32 (e.scount - 1) }) = s₁
        at hq₁ ⊢
      have hq₃ : Quiet s ((s₁.push (.ret OK)).recordCpuqdata (s₁.push (.ret OK)).currpid) :=
        (hq₁.trans (quiet_push s₁ rfl)).trans (quiet_recordCpuqdata _ _)
      generalize (s₁.push (.ret OK)).recordCpuqdata (s₁.push (.ret OK)).currpid = s₃
        at hq₃ ⊢
      have hO₃ := hO.quiet hq₃
      rw [← hq₃.currpid]
      show Ok w _ (((s₃.setProc s₃.currpid _).enqueue s₃.currpid
        (s₃.semtab sem).squeue).resched)
      rw [hO₃.inv.squeue sem hgood]
      apply block_ok hO₃ (Int.le_of_eq hd)
      · rw [hq₃.currpid]
        exact fun h => hnull h hblocks
      · rfl
      · exact waitq_sem hgood
      · exact Or.inl hgood
      · exact isQueue_semq hgood
      · exact semq_ne_readylist hgood
      · exact semq_ne_sleepq hgood
    · rw [resched_semtab, enqueue_semtab]
      show (Xinu.recordCpuqdata _ _).semtab = _
      rw [recordCpuqdata_semtab]
      rfl
  · constructor
    · exact (hO.quiet hq₁).ret _
    · rfl

/-- What a call does to the queue of its semaphore: it gives units, if any of
the units finds a waiter this one is released. -/
theorem signal_moves (hO : Ok w g s) (hu : s.SemUsable sem) (hsized : g.Sized s sem) :
    Ok w (g.pop (semq sem)) (s.signal sem) ∧
      (∀ p ∈ (g.lists (semq sem)).take 1, (s.signal sem).Alive p) ∧
      (s.signal sem).semtab = upd s.semtab sem
        { s.semtab sem with scount := int32 ((s.semtab sem).scount + 1) } := by
  have hgood := hu.1
  have hO₁ := hO.quiet (quiet_setSem s sem
    (f := fun e => { e with scount := int32 (e.scount + 1) }) fun _ => rfl)
  have hsq := hO₁.inv.squeue sem hgood
  have hO₂ := hO₁.push (f := .ret OK) rfl
  unfold Xinu.signal
  rw [if_neg hgood, if_neg hu.ne_free]
  dsimp only
  split
  · rw [hsq]
    constructor
    · exact readyDequeue_ok hO₂ (isQueue_semq hgood) (semq_ne_readylist hgood)
        (semq_ne_sleepq hgood)
    · constructor
      · intro p hp
        exact readyDequeue_alive hO₂ (isQueue_semq hgood) (semq_ne_readylist hgood) (Or.inl hp)
      · rw [readyDequeue_semtab]
        rfl
  · rename_i hcount
    have hnil : g.lists (semq sem) = [] := by
      apply List.length_eq_zero_iff.mp
      unfold View.Sized at hsized
      omega
    rw [View.pop_nil hnil, hnil]
    exact ⟨hO₁.ret _, by simp, rfl⟩

theorem View.defer_setList (hd : g.defers = 0) (q : Int) (l : List Int) :
    ((g.setDefers 1).setList q l).setDefers 0 = g.setList q l := by
  show (g.setList q l).setDefers 0 = _
  exact View.setDefers_zero hd

theorem signaln_moves (hO : Ok w g s) (hd : g.defers = 0) (hu : s.SemUsable sem)
    (hsized : g.Sized s sem) {count : Int} (hcount : 0 ≤ count)
    (hlow : -2147483648 ≤ (s.semtab sem).scount)
    (hhigh : (s.semtab sem).scount + count < 2147483648) :
    Signalled w g sem count.toNat s (s.signaln sem count) := by
  have hgood := hu.1
  have hO₁ := deferStart_ok (hO.push (f := .ret OK) rfl) hd
  have hpos : ¬ (isbadsem sem ∨ count < 0) := not_or.mpr ⟨hgood, Int.not_lt.mpr hcount⟩
  have h := signalnLoop_moves hgood count.toNat hO₁ hsized hlow (by
    show (s.semtab sem).scount + _ < _
    omega)
  unfold Xinu.signaln
  rw [if_neg hpos, if_neg hu.ne_free]
  dsimp only
  constructor
  · have hstop := deferStop_ok h.ok rfl
    unfold View.served at hstop
    rw [View.defer_setList hd] at hstop
    exact hstop
  · intro p hp
    exact alive_deferStop (h.alive p hp)
  · rw [reschedCntl_semtab]
    exact h.semtab

theorem semreset_moves (hO : Ok w g s) (hd : g.defers = 0) (hu : s.SemUsable sem)
    {count : Int} (hcount : 0 ≤ count) :
    Ok w (g.setList (semq sem) []) (s.semreset sem count) ∧
      (∀ p ∈ g.lists (semq sem), (s.semreset sem count).Alive p) ∧
      (s.semreset sem count).semtab =
        upd s.semtab sem { s.semtab sem with scount := count } := by
  have hgood := hu.1
  have hO₁ := deferStart_ok (hO.push (f := .ret OK) rfl) hd
  have hsq : ((s.push (.ret OK)).semtab sem).squeue = semq sem := hO.inv.squeue sem hgood
  have hlen : ((g.setDefers 1).lists (semq sem)).length < Xinu.queueFuel := by
    have hlists := hO.inv.lists_eq (semq sem) (semq_ne_readylist hgood)
    have hle := hO.inv.length_le (isQueue_semq hgood)
    rw [hlists] at hle
    exact Nat.lt_of_le_of_lt hle (by decide)
  have hbad : ¬ (count < 0 ∨ isbadsem sem ∨ (s.semtab sem).sstate = .free) :=
    not_or.mpr ⟨Int.not_lt.mpr hcount, not_or.mpr ⟨hgood, hu.ne_free⟩⟩
  rcases readyAll_moves (isQueue_semq hgood) (semq_ne_readylist hgood) (semq_ne_sleepq hgood)
    Xinu.queueFuel hO₁ hlen with ⟨hok, halive⟩
  unfold Xinu.semreset
  rw [if_neg hbad]
  dsimp only
  rw [hsq]
  have hO₂ := hok.quiet (quiet_setSem (Xinu.readyAll (semq sem) Xinu.queueFuel
    ((s.push (.ret OK)).reschedCntl DEFER_START)) sem
      (f := fun e => { e with scount := count }) fun _ => rfl)
  constructor
  · have hstop := deferStop_ok hO₂ rfl
    rw [View.defer_setList hd] at hstop
    exact hstop
  · constructor
    · intro p hp
      apply alive_deferStop
      exact halive p (Or.inl hp)
    · rw [reschedCntl_semtab]
      show upd (Xinu.readyAll _ _ _).semtab sem _ = _
      rw [readyAll_semtab, reschedCntl_semtab]
      rfl

theorem semdelete_moves (hO : Ok w g s) (hd : g.defers = 0) (hu : s.SemUsable sem)
    (hsized : g.Sized s sem) :
    Ok w (g.setList (semq sem) []) (s.semdelete sem) ∧
      (∀ p ∈ g.lists (semq sem), (s.semdelete sem).Alive p) ∧
      ((s.semdelete sem).semtab sem).sstate = .free ∧
      ∀ i, i ≠ sem → (s.semdelete sem).semtab i = s.semtab i := by
  have hgood := hu.1
  have hO₁ := deferStart_ok ((hO.push (f := .ret OK) rfl).quiet
    (quiet_setSem _ sem (f := fun e => { e with sstate := .free }) fun _ => rfl)) hd
  have hcount : (((s.push (.ret OK)).setSem sem fun e =>
      { e with sstate := .free }).reschedCntl DEFER_START).semtab sem =
        { s.semtab sem with sstate := .free } := by
    rw [reschedCntl_semtab]
    exact upd_self
  have hother : ∀ i, i ≠ sem → (((s.push (.ret OK)).setSem sem fun e =>
      { e with sstate := .free }).reschedCntl DEFER_START).semtab i = s.semtab i := by
    intro i hi
    rw [reschedCntl_semtab]
    exact upd_of_ne hi
  unfold Xinu.semdelete
  rw [if_neg hgood, if_neg hu.ne_free]
  dsimp only
  generalize (((s.push (.ret OK)).setSem sem fun e =>
    { e with sstate := .free }).reschedCntl DEFER_START) = s₁ at hO₁ hcount hother ⊢
  have h := semdeleteLoop_moves hgood (-(s₁.semtab sem).scount).toNat hO₁
  have hn : (-(s₁.semtab sem).scount).toNat = (g.lists (semq sem)).length := by
    rw [hcount]
    exact hsized.symm
  have hok := h.ok
  have halive := h.alive
  unfold View.served at hok
  have hdrop : ((g.setDefers 1).lists (semq sem)).drop (-(s₁.semtab sem).scount).toNat =
      [] := by
    rw [hn]
    exact List.drop_length
  have htake : ((g.setDefers 1).lists (semq sem)).take (-(s₁.semtab sem).scount).toNat =
      g.lists (semq sem) := by
    rw [hn]
    exact List.take_length
  rw [hdrop] at hok
  rw [htake] at halive
  have hO₂ := hok.quiet (quiet_setSem _ sem
    (f := fun e => { e with scount := int32 (e.scount + 1) }) fun _ => rfl)
  constructor
  · have hstop := deferStop_ok hO₂ rfl
    rw [View.defer_setList hd] at hstop
    exact hstop
  · constructor
    · intro p hp
      apply alive_deferStop
      exact halive p (Or.inl hp)
    · rw [reschedCntl_semtab]
      constructor
      · rw [setSem_self]
        dsimp only
        rw [h.semtab, upd_self, hcount]
      · intro i hi
        show upd _ sem _ i = _
        rw [upd_of_ne hi, h.semtab, upd_of_ne hi]
        exact hother i hi

end Calls

end BbbXinu
