import BbbXinu.Invariant.SemaphoreMoves
import BbbXinu.Properties.Deferral
import BbbXinu.Properties.QueueCount

/-!
# Blockers that are reset or deleted

The two calls that empty the queue of a blocker are run with a log of the
processes that they hand to {lit}`ready`.
-/

namespace BbbXinu

open LinkedLists KeyedLists Runs

/-- A process is handed to {lit}`ready`, with the states around it. -/
structure Release where
  pid : Int
  before : Xinu
  after : Xinu

/-- The kernel with the releases so far. -/
structure Releasing where
  now : Xinu
  log : List Release

namespace Releasing

def tap (r : Releasing) (f : Xinu → Xinu) : Releasing := { r with now := f r.now }

/-- The test of the loops, the flag and the call of {lit}`ready`. -/
def release (r : Releasing) (pid : Int) : Releasing :=
  if r.now.isbadpid pid then r
  else
    let after := (r.now.setFlag pid 0).ready pid
    { now := after, log := r.log ++ [{ pid := pid, before := r.now, after := after }] }

def deleteRound (rwb : Int) (r : Releasing) : Releasing :=
  let r := r.tap fun s => s.setRwb rwb fun e => { e with qcount := e.qcount - 1 }
  let pid := (r.now.getfirst (r.now.rwbtab rwb).rwqueue).1
  (r.tap fun s => (s.getfirst (s.rwbtab rwb).rwqueue).2).release pid

def rwbdeleteLoop (rwb : Int) : Nat → Releasing → Releasing
  | 0, r => r
  | n + 1, r => rwbdeleteLoop rwb n (r.deleteRound rwb)

def rwbdelete (r : Releasing) (rwb : Int) : Releasing :=
  if r.now.isbadrwb rwb then r.tap fun s => s.ret SYSERR
  else if (r.now.rwbtab rwb).rwstate = .free then r.tap fun s => s.ret SYSERR
  else
    let r := r.tap fun s =>
      ((s.push (.ret OK)).setRwb rwb fun e => { e with rwstate := .free }).reschedCntl DEFER_START
    let r := rwbdeleteLoop rwb (r.now.rwbtab rwb).qcount.toNat r
    r.tap fun s =>
      ((s.setRwb rwb fun e => { e with qcount := e.qcount - 1 }).setRwb rwb fun e =>
        { e with rwcount := 0 }).reschedCntl DEFER_STOP

def rwbreset (r : Releasing) (rwb count : Int) : Releasing :=
  if count < 0 ∨ r.now.isbadrwb rwb ∨ (r.now.rwbtab rwb).rwstate = .free then
    r.tap fun s => s.ret SYSERR
  else
    let r := r.tap fun s => s.push (.ret OK)
    let rwbqueue := (r.now.rwbtab rwb).rwqueue
    let r := r.tap fun s => s.reschedCntl DEFER_START
    let last := Xinu.rwbresetLoop rwb rwbqueue Xinu.queueFuel r.now
    -- the test stands behind the loop and sees its last result alone
    let r := (r.tap fun _ => last.2).release last.1
    r.tap fun s =>
      (s.setRwb rwb fun e => { e with rwcount := count }).reschedCntl DEFER_STOP

end Releasing

/-- The calls that clear a blocker. -/
inductive ClearCall where
  | reset (count : Int)
  | delete

/-- The count that the call leaves. -/
def ClearCall.count : ClearCall → Int
  | .reset count => count
  | .delete => 0

def ClearCall.run (rwb : Int) (s : Xinu) : ClearCall → Xinu
  | .reset count => s.rwbreset rwb count
  | .delete => s.rwbdelete rwb

def ClearCall.watch (rwb : Int) (s : Xinu) : ClearCall → Releasing
  | .reset count => Releasing.rwbreset { now := s, log := [] } rwb count
  | .delete => Releasing.rwbdelete { now := s, log := [] } rwb

/-- The release is made inside one deferral and leaves the process ready. -/
structure Release.Prompt (r : Release) : Prop where
  deferred : r.before.defer.ndefers = 1 ∧ r.after.defer.ndefers = 1
  still : r.after.currpid = r.before.currpid
  ready : (r.after.proctab r.pid).prstate = .ready

/-- Every waiting process is made ready once, in the order of the queue and in one
deferral, and the entry of the blocker is cleared. -/
structure Cleared (c : ClearCall) (rwb : Int) (s : Xinu) : Prop where
  released : (c.watch rwb s).log.map Release.pid = s.waiters rwb
  prompt : ∀ r ∈ (c.watch rwb s).log, r.Prompt
  runnable : ∀ p ∈ s.waiters rwb, (c.run rwb s).Alive p
  flags : ∀ p ∈ s.waiters rwb, (c.run rwb s).rwbflags p = 0
  queue : (c.run rwb s).waiters rwb = []
  qcount : ((c.run rwb s).rwbtab rwb).qcount = 0
  rwcount : ((c.run rwb s).rwbtab rwb).rwcount = c.count

section

variable {w : Watch} {g : View} {s : Xinu} {r : Releasing} {rwb pid : Int}

/-!
## The log changes nothing
-/

theorem Releasing.release_now (r : Releasing) (pid : Int) : (r.release pid).now =
    if r.now.isbadpid pid then r.now else (r.now.setFlag pid 0).ready pid := by
  unfold Releasing.release
  split <;> rfl

theorem Releasing.deleteRound_now (r : Releasing) (rwb : Int) :
    (r.deleteRound rwb).now = Xinu.rwbdeleteLoop rwb 1 r.now :=
  Releasing.release_now _ _

theorem Releasing.rwbdeleteLoop_now (n : Nat) (r : Releasing) :
    (rwbdeleteLoop rwb n r).now = Xinu.rwbdeleteLoop rwb n r.now := by
  induction n generalizing r with
  | zero => rfl
  | succ n ih =>
      show (rwbdeleteLoop rwb n (r.deleteRound rwb)).now = _
      rw [ih, Releasing.deleteRound_now]
      rfl

theorem ClearCall.watch_now (c : ClearCall) (rwb : Int) (s : Xinu) :
    (c.watch rwb s).now = c.run rwb s := by
  cases c with
  | reset count =>
      unfold ClearCall.watch ClearCall.run Releasing.rwbreset Xinu.rwbreset
      dsimp only
      split
      · rfl
      · have hrelease := Releasing.release_now
          { now := (Xinu.rwbresetLoop rwb ((s.push (.ret OK)).rwbtab rwb).rwqueue
              Xinu.queueFuel ((s.push (.ret OK)).reschedCntl DEFER_START)).2, log := [] }
          (Xinu.rwbresetLoop rwb ((s.push (.ret OK)).rwbtab rwb).rwqueue
            Xinu.queueFuel ((s.push (.ret OK)).reschedCntl DEFER_START)).1
        exact congrArg (fun s : Xinu =>
          (s.setRwb rwb fun e => { e with rwcount := count }).reschedCntl DEFER_STOP) hrelease
  | delete =>
      unfold ClearCall.watch ClearCall.run Releasing.rwbdelete Xinu.rwbdelete
      dsimp only
      split
      · rfl
      · split
        · rfl
        · exact congrArg (fun s : Xinu =>
            ((s.setRwb rwb fun e => { e with qcount := e.qcount - 1 }).setRwb rwb fun e =>
              { e with rwcount := 0 }).reschedCntl DEFER_STOP) (Releasing.rwbdeleteLoop_now _ _)

/-!
## One release
-/

/-- While rescheduling is deferred, {lit}`ready` makes its process ready and stays
on the processor. -/
theorem ready_deferred (hdef : s.defer.ndefers = 1) (hgood : ¬ s.isbadpid pid) :
    (s.ready pid).currpid = s.currpid ∧ (s.ready pid).defer.ndefers = 1 ∧
      ((s.ready pid).proctab pid).prstate = .ready := by
  have hentered := settled_enterReady s pid
  have hready : s.ready pid = (s.enterReady pid).setDefer { s.defer with attempt := true } := by
    unfold Xinu.ready
    rw [if_neg hgood]
    show (s.enterReady pid).resched = _
    unfold Xinu.resched
    rw [hentered.defer, hdef, if_pos Int.zero_lt_one]
  rw [hready]
  refine ⟨hentered.currpid, hdef, ?_⟩
  show ((s.enterReady pid).proctab pid).prstate = .ready
  unfold Xinu.enterReady
  dsimp only
  rw [insert_proctab, setProc_self]
  refine ((quiet_setprio _ pid).prstate pid).trans ?_
  exact congrArg Procent.prstate
    (setProc_self (s.recordCpuqdata pid) pid fun e => { e with prstate := .ready })

/-- Each release so far was prompt and has left its process running or ready. -/
structure Releasing.Sound (r : Releasing) : Prop where
  prompt : ∀ m ∈ r.log, m.Prompt
  alive : ∀ m ∈ r.log, r.now.Alive m.pid

theorem Releasing.Sound.release (hr : r.Sound) (hgood : ¬ r.now.isbadpid pid)
    (hdef : r.now.defer.ndefers = 1) :
    (r.release pid).log.map Release.pid = r.log.map Release.pid ++ [pid] ∧
      (r.release pid).Sound := by
  have hready := ready_deferred (s := r.now.setFlag pid 0) hdef hgood
  have halive : ∀ p, p = pid ∨ r.now.Alive p → ((r.now.setFlag pid 0).ready pid).Alive p :=
    fun p hp => alive_ready hgood hp
  unfold Releasing.release
  rw [if_neg hgood]
  refine ⟨List.map_append, ?_, ?_⟩
  · intro m hm
    rcases List.mem_append.mp hm with hold | hnew
    · exact hr.prompt m hold
    · rw [List.mem_singleton.mp hnew]
      exact ⟨⟨hdef, hready.2.1⟩, hready.1, hready.2.2⟩
  · intro m hm
    rcases List.mem_append.mp hm with hold | hnew
    · exact halive m.pid (Or.inr (hr.alive m hold))
    · rw [List.mem_singleton.mp hnew]
      exact halive pid (Or.inl rfl)

/-!
## The loop of {lit}`rwbdelete`
-/

/-- A round takes the first waiting process. -/
theorem deleteRound_first (hb : ValidRwb rwb) (hO : Ok w g r.now) (hdef : g.defers = 1)
    {l : List Int} (hL : g.lists (rwq rwb) = pid :: l) (hr : r.Sound) :
    (r.deleteRound rwb).log.map Release.pid = r.log.map Release.pid ++ [pid] ∧
      (r.deleteRound rwb).Sound := by
  have hO₁ := hO.setRwb rwb (f := fun e => { e with qcount := e.qcount - 1 }) fun _ => rfl
  have hrwq := hO₁.inv.rwqueue rwb hb
  have heq := (hO₁.inv.lists_eq (rwq rwb) (rwq_ne_readylist hb)).trans hL
  have hmem : pid ∈ lists (r.now.setRwb rwb fun e =>
      { e with qcount := e.qcount - 1 }).queuetab (rwq rwb) := by
    rw [heq]
    exact List.mem_cons_self
  have hgood := hO₁.inv.good_of_mem hmem
  rcases Xinu.getfirst_cons hO₁.inv.queues (isQueue_rwq hb) heq with ⟨t, ht, -, -⟩
  have hround : r.deleteRound rwb = (r.tap fun s =>
      (s.setRwb rwb fun e => { e with qcount := e.qcount - 1 }).setQueuetab t).release pid := by
    unfold Releasing.deleteRound
    dsimp only [Releasing.tap]
    rw [hrwq, ht]
  rw [hround]
  apply Releasing.Sound.release (r := r.tap _)
  · exact ⟨hr.prompt, hr.alive⟩
  · exact hgood
  · exact hO₁.inv.defers.trans hdef

/-- The loop takes the waiting processes in the order of the queue. -/
theorem rwbdeleteLoop_releases (hb : ValidRwb rwb) (l : List Int) (hO : Ok w g r.now)
    (hdef : g.defers = 1) (hL : g.lists (rwq rwb) = l) (hr : r.Sound) :
    (Releasing.rwbdeleteLoop rwb l.length r).log.map Release.pid =
        r.log.map Release.pid ++ l ∧
      (Releasing.rwbdeleteLoop rwb l.length r).Sound := by
  induction l generalizing g r with
  | nil => exact ⟨(List.append_nil _).symm, hr⟩
  | cons p l ih =>
      have hfirst := deleteRound_first hb hO hdef hL hr
      have hO₁ : Ok w (g.deleteOne rwb) (r.deleteRound rwb).now := by
        rw [Releasing.deleteRound_now]
        exact rwbdeleteLoop_ok hb 1 hO
      have hL₁ : (g.deleteOne rwb).lists (rwq rwb) = l := by
        rw [View.deleteOne_queue, hL, List.tail_cons]
      have hrest := ih hO₁ (g.deleteOne_defers.trans hdef) hL₁ hfirst.2
      refine ⟨hrest.1.trans ?_, hrest.2⟩
      rw [hfirst.1, List.append_assoc, List.singleton_append]

/-!
## The blocker after the call
-/

theorem View.deleteOne_unflagged {p : Int} (h : g.flags p = 0) :
    (g.deleteOne rwb).flags p = 0 := by
  unfold View.deleteOne
  dsimp only
  split
  · exact h
  · rename_i pid l _
    show upd g.flags pid 0 p = 0
    rw [upd_apply]
    split
    · rfl
    · exact h

theorem View.deleteLoop_unflagged {p : Int} (l : List Int) (g : View)
    (hL : g.lists (rwq rwb) = l) (h : p ∈ l ∨ g.flags p = 0) :
    (deleteLoop rwb l.length g).flags p = 0 := by
  induction l generalizing g with
  | nil =>
      rcases h with hmem | hflag
      · cases hmem
      · exact hflag
  | cons q l ih =>
      apply ih (g.deleteOne rwb)
      · rw [deleteOne_queue, hL, List.tail_cons]
      · rcases h with hmem | hflag
        · rcases List.mem_cons.mp hmem with rfl | hrest
          · right
            unfold View.deleteOne
            have hqueue : (g.setRwb rwb fun e => { e with qcount := e.qcount - 1 }).lists
                (rwq rwb) = p :: l := hL
            dsimp only
            rw [hqueue]
            exact upd_self
          · exact Or.inl hrest
        · exact Or.inr (deleteOne_unflagged hflag)

/-- The failing test takes one more off the count. -/
theorem View.delete_qcount (g : View) : ((g.delete rwb).tab rwb).qcount =
    (g.tab rwb).qcount - (g.tab rwb).qcount.toNat - 1 := by
  unfold View.delete
  dsimp only
  rw [setRwb_at, setRwb_at, deleteLoop_tab, setRwb_at]

theorem qcount_toNat (hI : Inv w g EMPTY s) (hb : ValidRwb rwb)
    (hcount : (s.rwbtab rwb).qcount = (s.waiters rwb).length) :
    (g.tab rwb).qcount = (g.lists (rwq rwb)).length ∧
      (g.tab rwb).qcount.toNat = (g.lists (rwq rwb)).length := by
  rw [hI.tab, waiters_eq hI hb] at hcount
  refine ⟨hcount, ?_⟩
  rw [hcount]
  rfl

/-- The releases of {lit}`rwbdelete`. -/
theorem rwbdelete_releases (hO : Ok w g s) (hdef : g.defers = 0) (hused : ¬ s.isbadrwb rwb)
    (hcount : (s.rwbtab rwb).qcount = (s.waiters rwb).length) :
    (ClearCall.delete.watch rwb s).log.map Release.pid = s.waiters rwb ∧
      (ClearCall.delete.watch rwb s).Sound := by
  have hvalid := not_isbadrwb_iff.mp hused
  have hqcount := qcount_toNat hO.inv hvalid.1 hcount
  have hstart := deferStart_ok ((hO.push (f := .ret OK) rfl).setRwb rwb
    (f := fun e => { e with rwstate := .free }) fun _ => rfl) hdef
  have hrounds : ((((s.push (.ret OK)).setRwb rwb fun e =>
      { e with rwstate := .free }).reschedCntl DEFER_START).rwbtab rwb).qcount.toNat =
      (g.lists (rwq rwb)).length := by
    rw [hstart.inv.tab, ← hqcount.2]
    exact congrArg (fun e => e.qcount.toNat)
      (View.setRwb_at g rwb fun e => { e with rwstate := .free })
  have hloop := rwbdeleteLoop_releases (r := { now := _, log := [] }) hvalid.1 _ hstart rfl rfl
    ⟨fun m hm => absurd hm List.not_mem_nil, fun m hm => absurd hm List.not_mem_nil⟩
  unfold ClearCall.watch Releasing.rwbdelete
  dsimp only
  rw [if_neg hused, if_neg hvalid.2]
  dsimp only [Releasing.tap] at hloop ⊢
  rw [hrounds, waiters_eq hO.inv hvalid.1]
  exact ⟨hloop.1, hloop.2.prompt, fun m hm => alive_deferStop (hloop.2.alive m hm)⟩

/-- {lit}`rwbdelete` does all that it should but for the count of the queue, which
it leaves at -1. -/
theorem rwbdelete_clears (hO : Ok w g s) (hdef : g.defers = 0) (hused : ¬ s.isbadrwb rwb)
    (hcount : (s.rwbtab rwb).qcount = (s.waiters rwb).length) :
    (∀ p ∈ s.waiters rwb, (s.rwbdelete rwb).rwbflags p = 0) ∧
      (s.rwbdelete rwb).waiters rwb = [] ∧
      ((s.rwbdelete rwb).rwbtab rwb).qcount = -1 ∧
      ((s.rwbdelete rwb).rwbtab rwb).rwcount = 0 := by
  have hb := (not_isbadrwb_iff.mp hused).1
  have hqcount := qcount_toNat hO.inv hb hcount
  have hO' := (rwbdelete_ok hO hdef).2 hused
  rw [waiters_eq hO.inv hb, waiters_eq hO'.inv hb, hO'.inv.tab, hO'.inv.flags]
  refine ⟨?_, ?_, ?_, (View.delete_tab g rwb).2⟩
  · intro p hp
    have hrounds : ((g.setRwb rwb fun e => { e with rwstate := .free }).tab rwb).qcount.toNat =
        (g.lists (rwq rwb)).length := by
      rw [View.setRwb_at]
      exact hqcount.2
    unfold View.delete
    dsimp only
    rw [hrounds]
    exact View.deleteLoop_unflagged _ _ rfl (Or.inl hp)
  · rw [View.delete_queue, hqcount.2]
    exact List.drop_length
  · rw [View.delete_qcount, hqcount.1]
    omega

/-- {lit}`rwbreset` hands nobody to {lit}`ready`: its loop ends with
{lit}`EMPTY`. -/
theorem rwbreset_releases (hO : Ok w g s) (hdef : g.defers = 0) (hused : ¬ s.isbadrwb rwb)
    {count : Int} (hcount : 0 ≤ count) : ((ClearCall.reset count).watch rwb s).log = [] := by
  have hvalid := not_isbadrwb_iff.mp hused
  have hpass : ¬ (count < 0 ∨ s.isbadrwb rwb ∨ (s.rwbtab rwb).rwstate = .free) := by
    rintro (h | h | h)
    · omega
    · exact hused h
    · exact hvalid.2 h
  have hstart := deferStart_ok (hO.push (f := .ret OK) rfl) hdef
  have hlen : ((g.setDefers 1).lists (rwq rwb)).length < Xinu.queueFuel := by
    have h1 : (lists s.queuetab (rwq rwb)).length ≤ 100 :=
      hO.inv.length_le (isQueue_rwq hvalid.1)
    rw [hO.inv.lists_eq _ (rwq_ne_readylist hvalid.1)] at h1
    exact Nat.lt_of_le_of_lt h1 (by decide)
  have hrwq : ((s.push (.ret OK)).rwbtab rwb).rwqueue = rwq rwb := hO.inv.rwqueue rwb hvalid.1
  have hempty := (rwbresetLoop_ok hvalid.1 Xinu.queueFuel hstart hlen).1
  unfold ClearCall.watch Releasing.rwbreset
  dsimp only
  rw [if_neg hpass]
  dsimp only [Releasing.tap]
  rw [hrwq, hempty]
  unfold Releasing.release
  rw [if_pos (isbadpid_empty _)]

/-- {lit}`rwbreset` clears a blocker for which nobody waits and no other, and
{lit}`rwbdelete` clears none. -/
theorem cleared_iff (hG : Good .plain g s) (hused : ¬ s.isbadrwb rwb)
    (hqcount : (s.rwbtab rwb).qcount = (s.waiters rwb).length) (c : ClearCall)
    (hcount : 0 ≤ c.count) :
    Cleared c rwb s ↔ (∃ count, c = .reset count) ∧ s.waiters rwb = [] := by
  have hO := hG.ok
  have hb := (not_isbadrwb_iff.mp hused).1
  cases c with
  | delete =>
      constructor
      · intro h
        have hbelow := (rwbdelete_clears hO hG.defers hused hqcount).2.2.1
        exact absurd (h.qcount.symm.trans hbelow) (by decide)
      · rintro ⟨⟨count, h⟩, -⟩
        cases h
  | reset count =>
      have hcount : 0 ≤ count := hcount
      have hlog := rwbreset_releases hO hG.defers hused hcount
      constructor
      · intro h
        refine ⟨⟨count, rfl⟩, ?_⟩
        rw [← h.released, hlog]
        rfl
      · rintro ⟨-, hempty⟩
        have hO' := (rwbreset_ok hO hG.defers).2 hcount hused
        have hqueue : g.lists (rwq rwb) = [] := by rw [← waiters_eq hO.inv hb, hempty]
        have htab : ((s.rwbreset rwb count).rwbtab rwb) =
            { g.tab rwb with
              qcount := (g.tab rwb).qcount - (g.lists (rwq rwb)).length
              rwcount := count } := by
          rw [hO'.inv.tab]
          exact View.reset_tab g rwb count
        constructor
        · rw [hlog, hempty]
          rfl
        · rw [hlog]
          exact fun r hr => absurd hr List.not_mem_nil
        · rw [hempty]
          exact fun p hp => absurd hp List.not_mem_nil
        · rw [hempty]
          exact fun p hp => absurd hp List.not_mem_nil
        · show (s.rwbreset rwb count).waiters rwb = []
          rw [waiters_eq hO'.inv hb]
          exact View.reset_queue g rwb count
        · show ((s.rwbreset rwb count).rwbtab rwb).qcount = 0
          rw [htab, (qcount_toNat hO.inv hb hqcount).1]
          exact Int.sub_self _
        · show ((s.rwbreset rwb count).rwbtab rwb).rwcount = count
          rw [htab]

end

/-- A reset of a blocker for which nobody waits. -/
theorem cleared_iff_idle : ∃ s, ¬ Xinu.isbadrwb s 0 ∧ Cleared (.reset 3) 0 s := by
  rcases exists_reach_of_follow Xinu.step (fun s l => AnyCalls s l ∧ FindsLinked s l)
    booted_sample [.call (.create 4096 20), .call (.resume 1), .call (.rwbcreate 0)]
    (fun s => ¬ s.isbadrwb 0 ∧ (s.rwbtab 0).qcount = (s.waiters 0).length ∧ s.waiters 0 = [])
    (by decide +kernel) with ⟨s, hs, hused, hqcount, hempty⟩
  rcases good_of_reach hs with ⟨g, hG⟩
  exact ⟨s, hused, (cleared_iff hG hused hqcount (.reset 3) (by decide)).mpr
    ⟨⟨3, rfl⟩, hempty⟩⟩

/-- A process waits for a writer when the blocker is reset, and is never made
ready. -/
theorem waiter_dropped :
    ¬ ∀ s, Reach Xinu.step (fun s l => AnyCalls s l ∧ FindsLinked s l) Booted s →
      ∀ rwb, ¬ s.isbadrwb rwb → (s.rwbtab rwb).qcount = (s.waiters rwb).length →
        ∀ c : ClearCall, 0 ≤ c.count → Cleared c rwb s := by
  intro h
  rcases exists_reach_of_follow Xinu.step (fun s l => AnyCalls s l ∧ FindsLinked s l)
    booted_sample
    [.call (.create 4096 20), .call (.resume 1), .call (.rwbcreate 0), .call (.rwbTrywrite 0),
      .call (.create 4096 30), .call (.resume 2), .call (.rwbTryread 0), .cont]
    (fun s => ¬ s.isbadrwb 0 ∧ (s.rwbtab 0).qcount = (s.waiters 0).length ∧
      s.waiters 0 = [2] ∧ ((s.rwbreset 0 0).proctab 2).prstate = .wait)
    (by decide +kernel) with ⟨s, hs, hused, hqcount, hwaits, hwait⟩
  have halive : (s.rwbreset 0 0).Alive 2 := by
    apply (h s hs 0 hused hqcount (.reset 0) (by decide)).runnable
    rw [hwaits]
    exact List.mem_cons_self
  rcases halive with hready | hcurr
  · cases hready.symm.trans hwait
  · cases hcurr.symm.trans hwait

/-- In every state that is reached {lit}`rwbdelete` makes whoever waits ready, in the order of the
queue and in one deferral. -/
theorem rwbdelete_frees {s : Xinu} {rwb : Int}
    (h : Reach Xinu.step (fun s l => AnyCalls s l ∧ FindsLinked s l) Booted s)
    (hused : ¬ s.isbadrwb rwb) (hqcount : (s.rwbtab rwb).qcount = (s.waiters rwb).length) :
    ∃ r : Releasing, r = ClearCall.delete.watch rwb s ∧ r.now = s.rwbdelete rwb ∧
      r.log.map Release.pid = s.waiters rwb ∧ r.Sound ∧
      (∀ p ∈ s.waiters rwb, r.now.rwbflags p = 0) ∧ r.now.waiters rwb = [] := by
  rcases good_of_reach h with ⟨g, hG⟩
  have hnow := ClearCall.delete.watch_now rwb s
  rcases rwbdelete_clears hG.ok hG.defers hused hqcount with ⟨hflags, hempty, -⟩
  rcases rwbdelete_releases hG.ok hG.defers hused hqcount with ⟨hlog, hsound⟩
  rw [← show _ = s.rwbdelete rwb from hnow] at hflags hempty
  exact ⟨_, rfl, hnow, hlog, hsound, hflags, hempty⟩

/-- A reader and a writer wait when the blocker is deleted. -/
theorem rwbdelete_frees_two : ∃ s : Xinu, s.waiters 0 = [2, 3] ∧
    (ClearCall.delete.watch 0 s).log.map Release.pid = [2, 3] := by
  rcases exists_reach_of_follow Xinu.step (fun s l => AnyCalls s l ∧ FindsLinked s l)
    booted_sample
    [.call (.create 4096 20), .call (.resume 1), .call (.rwbcreate 0), .call (.rwbTrywrite 0),
      .call (.create 4096 30), .call (.resume 2), .call (.rwbTryread 0), .cont,
      .call (.create 4096 30), .call (.resume 3), .call (.rwbTrywrite 0), .cont]
    (fun s => ¬ s.isbadrwb 0 ∧ (s.rwbtab 0).qcount = (s.waiters 0).length ∧ s.waiters 0 = [2, 3])
    (by decide +kernel) with ⟨s, hs, hused, hqcount, hwaits⟩
  rcases rwbdelete_frees hs hused hqcount with ⟨_, rfl, -, hlog, -⟩
  exact ⟨s, hwaits, hlog.trans hwaits⟩

end BbbXinu
