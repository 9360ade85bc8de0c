import BbbXinu.Invariant.BlockerOps
import BbbXinu.Properties.Tables

/-!
# Queue counts of blockers

{lit}`qcount` is kept beside the queue.  {lit}`rwbdelete` leaves it one too low,
which shows once {lit}`rwbcreate` hands the entry out again.
-/

namespace BbbXinu

open LinkedLists KeyedLists Runs

/-- The processes on the queue of a blocker. -/
def Xinu.waiters (s : Xinu) (rwb : Int) : List Int :=
  lists s.queuetab (s.rwbtab rwb).rwqueue

/-- A blocker is made of an entry whose queue count is 0. -/
def MakesFresh (s : Xinu) : Label → Prop
  | .call (.rwbcreate _) => (s.rwbtab s.newrwb.1).qcount = 0
  | _ => True

instance (s : Xinu) (l : Label) : Decidable (MakesFresh s l) :=
  match l with
  | .call c => by induction c using Call.casesOn <;> unfold MakesFresh <;> infer_instance
  | .cont => inferInstanceAs (Decidable True)

/-- A process is killed while it waits. -/
def KillsWaiting (s : Xinu) : Label → Prop
  | .call (.kill pid) => (s.proctab pid).prstate = .wait
  | _ => True

instance (s : Xinu) (l : Label) : Decidable (KillsWaiting s l) :=
  match l with
  | .call c => by induction c using Call.casesOn <;> unfold KillsWaiting <;> infer_instance
  | .cont => inferInstanceAs (Decidable True)

/-- The queue count of each used blocker is right, and nobody enters past a
waiting process. -/
structure QueueCounted (s : Xinu) : Prop where
  qcount : ∀ rwb, ¬ s.isbadrwb rwb → (s.rwbtab rwb).qcount = (s.waiters rwb).length
  blocks : ∀ rwb, ¬ s.isbadrwb rwb → s.waiters rwb ≠ [] →
    s.blocks (.rwbTryread rwb) ∧ s.blocks (.rwbTrywrite rwb)

/-- The counts of one blocker in the view. -/
structure Counts (g : View) (b : Int) : Prop where
  used : (g.tab b).rwstate ≠ .free → (g.tab b).qcount = (g.lists (rwq b)).length
  free : (g.tab b).rwstate = .free → g.lists (rwq b) = []

section

variable {w : Watch} {g g' : View} {s s' : Xinu} {l : Label} {b : Int}

theorem Counts.congr (h : Counts g b) (htab : g'.tab b = g.tab b)
    (hlists : g'.lists (rwq b) = g.lists (rwq b)) : Counts g' b where
  used := by
    rw [htab, hlists]
    exact h.used
  free := by
    rw [htab, hlists]
    exact h.free

/-- Entry and queue change by the same amount. -/
theorem Counts.of_used (hstate : (g'.tab b).rwstate ≠ .free)
    (hcount : (g'.tab b).qcount = (g'.lists (rwq b)).length) : Counts g' b :=
  ⟨fun _ => hcount, fun h => absurd h hstate⟩

theorem Counts.block (h : Counts g b) (hu : (g.tab b).rwstate ≠ .free) (pid : Int) :
    Counts (g.block pid b) b := by
  apply Counts.of_used
  · rw [View.block_tab]
    exact hu
  · rw [View.block_tab, View.block_queue, List.length_append]
    show (g.tab b).qcount + 1 = _
    rw [h.used hu]
    rfl

/-- A blocker with waiting processes is in use. -/
theorem Counts.used_of_queue (h : Counts g b) (hne : g.lists (rwq b) ≠ []) :
    (g.tab b).rwstate ≠ .free :=
  fun hf => hne (h.free hf)

theorem Counts.release (h : Counts g b) (pid : Int) (after : Frame) {n : Int}
    {rest : List Int} (hqueue : g.lists (rwq b) = n :: rest) :
    Counts (g.release pid b after) b := by
  have hu : (g.tab b).rwstate ≠ .free := by
    apply h.used_of_queue
    rw [hqueue]
    exact List.cons_ne_nil n rest
  apply Counts.of_used
  · rw [View.release_tab]
    exact hu
  · rw [View.release_tab, View.release_queue, hqueue, List.tail_cons]
    show (g.tab b).qcount - 1 = _
    rw [h.used hu, hqueue, List.length_cons]
    omega

theorem Counts.setRwcount (h : Counts g b) (f : Int → Int) :
    Counts (g.setRwb b fun e => { e with rwcount := f e.rwcount }) b where
  used := by
    rw [View.setRwb_at]
    exact h.used
  free := by
    rw [View.setRwb_at]
    exact h.free

theorem Counts.releases {pid thisid : Int} (h : Counts g b)
    (hr : Releases g pid thisid b g') : Counts g' b := by
  cases hr with
  | none hstop => exact h
  | writer hqueue _ _ => exact h.release pid _ hqueue
  | reader hqueue _ => exact h.release pid _ hqueue

/-- What {lit}`_signalrwb` does after the caller's share is given back. -/
theorem Counts.signalrwb (h : Counts g b) (pid thisid : Int) :
    Counts (g.signalrwb pid thisid b) b := by
  have h₁ : Counts (g.setFlag thisid 0) b := h.congr rfl rfl
  have h₂ := h₁.setRwcount fun c => if g.flags thisid = -1 then c + 1 else c - 1
  exact h₂.releases (signalNext_releases _ pid thisid b)

theorem Counts.signalReader (h : Counts g b) (pid thisid : Int) :
    Counts (g.signalReader pid thisid b) b := by
  have h₁ := h.setRwcount fun c => c + 1
  rcases signalReaders_releases (g.setRwb b fun e => { e with rwcount := e.rwcount + 1 })
    pid thisid b with ⟨n, rest, hqueue, _, heq⟩ | ⟨_, heq⟩
  · unfold View.signalReader
    dsimp only
    rw [heq]
    exact h₁.release pid _ hqueue
  · unfold View.signalReader
    dsimp only
    rw [heq]
    exact h₁

theorem Counts.delete (h : Counts g b) (hu : (g.tab b).rwstate ≠ .free) :
    Counts (g.delete b) b where
  used := fun hused => absurd (View.delete_tab g b).1 hused
  free := fun _ => by
    rw [View.delete_queue, h.used hu]
    exact List.drop_length

theorem Counts.reset (h : Counts g b) (hu : (g.tab b).rwstate ≠ .free) (count : Int) :
    Counts (g.reset b count) b := by
  apply Counts.of_used
  · rw [View.reset_tab]
    exact hu
  · rw [View.reset_tab, View.reset_queue]
    show (g.tab b).qcount - (g.lists (rwq b)).length = _
    rw [h.used hu]
    exact Int.sub_self _

/-- A waiting victim leaves both the queue and its count. -/
theorem Counts.killWaiting (h : Counts g b) {victim : Int}
    (hmem : victim ∈ g.lists (rwq b)) : Counts (g.killWaiting victim b) b := by
  have htab : (g.killWaiting victim b).tab b =
      { g.tab b with qcount := (g.tab b).qcount - 1 } := upd_self
  have hqueue : (g.killWaiting victim b).lists (rwq b) = (g.lists (rwq b)).erase victim :=
    View.unqueue_at _ (rwq b) victim
  have hu := h.used_of_queue (List.ne_nil_of_mem hmem)
  apply Counts.of_used
  · rw [htab]
    exact hu
  · rw [htab, hqueue, List.length_erase_of_mem hmem]
    have hpos := List.length_pos_of_mem hmem
    have hcount := h.used hu
    show (g.tab b).qcount - 1 = _
    omega

/-- A call on a blocker leaves the other blockers alone. -/
theorem Counts.of_local {rwb : Int} (hC : Counts g b) (hl : View.Local rwb g g')
    (hrwb : b = rwb → Counts g' rwb) : Counts g' b := by
  by_cases hne : b = rwb
  · rw [hne]
    exact hrwb hne
  · exact hC.congr (hl.tab b hne) (hl.lists _ fun h => hne (rwq_inj h))

/-- The switch of {lit}`kill` on the state of a victim that is on its queue. -/
theorem Counts.killState {pid : Int} (hI : Inv w g EMPTY s) (hlinked : s.Linked pid)
    (hb : ValidRwb b) {g₁ : View} (hlists : g₁.lists = g.lists) (hC₁ : Counts g₁ b) :
    Counts (g₁.killState s.currpid pid (s.proctab pid).prstate (s.proctab pid).prsem) b := by
  have hqueue : ∀ q, rwq b ≠ q → Counts ((g₁.unqueue q pid).setLive pid False) b :=
    fun q hq => hC₁.congr rfl (upd_of_ne hq)
  have hplain : Counts (g₁.setLive pid False) b := hC₁.congr rfl rfl
  unfold View.killState
  cases hstate : (s.proctab pid).prstate with
  | sleep => exact hqueue sleepq (rwq_ne_sleepq hb)
  | rectim => exact hqueue sleepq (rwq_ne_sleepq hb)
  | ready =>
      dsimp only
      unfold View.killReady
      split
      · dsimp only
        split
        · have hC₂ : Counts ((g₁.setLimbo fun p => p = pid ∨ g₁.limbo p).pushFrame s.currpid
              (.killSignaled pid)) b := hC₁.congr rfl rfl
          have hl := signalrwb_local ((g₁.setLimbo fun p => p = pid ∨ g₁.limbo p).pushFrame
            s.currpid (.killSignaled pid)) s.currpid pid (-1 * ((s.proctab pid).prsem + 2))
          apply hC₂.of_local hl
          intro hrwb
          rw [hrwb] at hC₂
          exact hC₂.signalrwb _ _
        · exact hC₁.congr rfl rfl
      · exact hplain
  | wait =>
      dsimp only
      rcases hI.waits_on pid hstate with hsem | ⟨hprsem, hvalid⟩
      · have hpos : ¬ (s.proctab pid).prsem < -1 := by
          simp only [isbadsem, not_or, Int.not_lt] at hsem
          omega
        rw [if_neg hpos]
        exact hqueue (semq (s.proctab pid).prsem) (semq_ne_rwq hsem hb).symm
      · rw [if_pos hprsem]
        have hmem := Linked.mem hlinked (home_wait hstate)
        unfold waitq at hmem
        rw [if_pos hprsem, hI.lists_eq _ (rwq_ne_readylist hvalid), ← hlists] at hmem
        by_cases hne : b = -1 * ((s.proctab pid).prsem + 2)
        · rw [← hne] at hmem ⊢
          exact hC₁.killWaiting hmem
        · exact hC₁.congr (upd_of_ne hne) (upd_of_ne fun h => hne (rwq_inj h))
  | free => exact hplain
  | curr => exact hplain
  | recv => exact hplain
  | susp => exact hplain

theorem Counts.blockMove (hI : Inv w g EMPTY s) (hb : ValidRwb b)
    (hlinked : l = .cont → ∀ pid ∈ s.victim, s.Linked pid)
    (hfresh : ∀ count, l = .call (.rwbcreate count) → s.newrwb.1 = b →
      (g.tab b).rwstate = .free → (g.tab b).qcount = 0)
    (hm : g.BlockMove s l g') (hC : Counts g b) : Counts g' b := by
  have hpop : ∀ rest, Counts (g.setFrames s.currpid rest) b := fun _ => hC.congr rfl rfl
  cases hm with
  | keep hl h => exact hC.congr (by rw [h.tab]) (h.lists b hb)
  | born hdead hpid => exact hC.congr rfl rfl
  | kill hnull h => exact hC.congr (by rw [h.tab]; rfl) (h.lists b hb)
  | @create count hcount hvalid hfree =>
      apply hC.of_local (View.local_create g _ _)
      intro hrwb
      rw [← hrwb] at hfree ⊢
      apply Counts.of_used
      · rw [View.create_tab]
        exact fun h => by cases h
      · rw [View.create_tab]
        show (g.tab b).qcount = (g.lists (rwq b)).length
        rw [hfresh count rfl hrwb.symm hfree, hC.free hfree]
        rfl
  | delete hu =>
      apply hC.of_local (View.local_delete g _)
      intro hrwb
      rw [hrwb] at hC
      exact hC.delete hu.2
  | reset hcount hu =>
      apply hC.of_local (View.local_reset g _ _)
      intro hrwb
      rw [hrwb] at hC
      exact hC.reset hu.2 _
  | tryread hu =>
      apply hC.of_local (View.local_tryread g _ _)
      intro hrwb
      rw [hrwb] at hC
      have h₁ : Counts (g.setFlag s.currpid 1) _ := hC.congr rfl rfl
      rcases View.tryread_cases g s.currpid _ with ⟨_, heq⟩ | ⟨_, heq⟩
      · rw [heq]
        exact h₁.block hu.2 s.currpid
      · rw [heq]
        exact h₁.setRwcount fun c => c + 1
  | trywrite hu =>
      apply hC.of_local (View.local_trywrite g _ _)
      intro hrwb
      rw [hrwb] at hC
      have h₁ : Counts (g.setFlag s.currpid (-1)) _ := hC.congr rfl rfl
      rcases View.trywrite_cases g s.currpid _ with ⟨_, heq⟩ | ⟨_, heq⟩
      · rw [heq]
        exact h₁.block hu.2 s.currpid
      · rw [heq]
        exact h₁.setRwcount fun c => c - 1
  | signal hu =>
      apply hC.of_local (signalrwb_local g _ _ _)
      intro hrwb
      rw [hrwb] at hC
      exact hC.signalrwb _ _
  | @writer thisid rwb rest hs hv =>
      have hC₁ := hpop rest
      apply hC₁.of_local (View.local_setRwb _ _ _)
      intro hrwb
      rw [hrwb] at hC₁
      exact hC₁.setRwcount fun c => c - 1
  | @reader thisid rwb rest hs hv =>
      have hC₁ := hpop rest
      apply hC₁.of_local (signalReader_local _ _ _ _)
      intro hrwb
      rw [hrwb] at hC₁
      exact hC₁.signalReader _ _
  | killSent hs hv => exact Counts.killState hI (hlinked rfl _ hv) hb rfl (hpop _)
  | killSignaled hs hv => exact hC.congr rfl rfl

theorem counts_boot (b : Int) : Counts bootView b :=
  ⟨fun h => absurd rfl h, fun _ => rfl⟩

theorem waiters_eq (hI : Inv w g EMPTY s) (hb : ValidRwb b) :
    s.waiters b = g.lists (rwq b) := by
  unfold Xinu.waiters
  rw [hI.rwqueue b hb, hI.lists_eq _ (rwq_ne_readylist hb)]

theorem queueCounted_of_counts (hI : Inv w g EMPTY s)
    (hC : ∀ b, ValidRwb b → Counts g b) : QueueCounted s := by
  have hcount : ∀ rwb, ¬ s.isbadrwb rwb → (s.rwbtab rwb).qcount = (s.waiters rwb).length := by
    intro rwb hbad
    have hu := (usable_iff hI rwb).mpr hbad
    rw [waiters_eq hI hu.1, hI.tab]
    exact (hC rwb hu.1).used hu.2
  refine ⟨hcount, ?_⟩
  intro rwb hbad hne
  have hpos : 0 < (s.rwbtab rwb).qcount := by
    have hlen := List.length_pos_iff.mpr hne
    have heq := hcount rwb hbad
    omega
  exact ⟨⟨hbad, Or.inr hpos⟩, ⟨hbad, Or.inr hpos⟩⟩

/-- In every run that makes blockers of fresh entries and unlinks only processes
on their queues, each queue count is the length of the queue. -/
theorem queue_counted
    (h : Reach Xinu.step (fun s l => AnyCalls s l ∧ FindsLinked s l ∧ MakesFresh s l)
      Booted s) : QueueCounted s := by
  have hC : ∃ g, Good .plain g s ∧ ∀ b, ValidRwb b → Counts g b := by
    apply h.invariant
    · rintro s ⟨mem, rand, rfl⟩
      exact ⟨bootView, sysinit_good .plain mem rand, fun b _ => counts_boot b⟩
    · intro s l s' _ hC henv hstep
      rcases hC with ⟨g, hG, hC⟩
      rcases step_good hG (henv.1.fits henv.2.1) hstep with ⟨g', hmoves, hG'⟩
      refine ⟨g', hG', ?_⟩
      intro b hb
      refine Counts.blockMove hG.ok.inv hb henv.2.1.victim ?_
        (moves_blockMove hG.ok.inv hmoves) (hC b hb)
      rintro count rfl rfl _
      rw [← hG.ok.inv.tab]
      exact henv.2.2
  rcases hC with ⟨g, hG, hC⟩
  exact queueCounted_of_counts hG.ok.inv hC

end

/-- Two processes wait for a writer, and one of them is killed. -/
theorem queue_counted_killed :
    ∃ s, (s.waiters 0 = [2] ∧ (s.proctab 3).prstate = .free) ∧ QueueCounted s := by
  rcases exists_reach_of_follow Xinu.step
    (fun s l => AnyCalls s l ∧ FindsLinked s l ∧ MakesFresh s l) booted_sample
    [.call (.create 4096 20), .call (.resume 1), .call (.rwbcreate 0), .call (.rwbTrywrite 0),
      .call (.create 4096 30), .call (.resume 2), .call (.rwbTryread 0), .cont,
      .call (.create 4096 30), .call (.resume 3), .call (.rwbTrywrite 0), .cont,
      .call (.kill 3), .cont]
    (fun s => s.waiters 0 = [2] ∧ (s.proctab 3).prstate = .free)
    (by decide +kernel) with ⟨s, hs, hp⟩
  exact ⟨s, hp, queue_counted hs⟩

/-- A deleted entry is handed out again with a queue count of -1, and a reader
enters past a waiting writer. -/
theorem reused_miscounted :
    ¬ ∀ s, Reach Xinu.step (fun s l => AnyCalls s l ∧ KillsWaiting s l) Booted s →
      QueueCounted s := by
  intro h
  rcases exists_reach_of_follow Xinu.step (fun s l => AnyCalls s l ∧ KillsWaiting s l)
    booted_sample
    [.call (.create 4096 20), .call (.resume 1), .call (.rwbcreate 0), .call (.rwbdelete 0),
      .cont, .call (.rwbcreate 0), .call (.rwbcreate 0), .call (.rwbcreate 0),
      .call (.rwbcreate 0), .call (.rwbcreate 0), .call (.rwbcreate 0), .call (.rwbcreate 0),
      .call (.rwbcreate 0), .call (.rwbcreate 0), .call (.rwbcreate 0), .call (.rwbTryread 0),
      .call (.create 4096 30), .call (.resume 2), .call (.rwbTrywrite 0), .cont]
    (fun s => ¬ s.isbadrwb 0 ∧ s.waiters 0 = [2] ∧ ¬ s.blocks (.rwbTryread 0))
    (by decide +kernel) with ⟨s, hs, hbad, hwaits, henter⟩
  apply henter
  apply ((h s hs).blocks 0 hbad ?_).1
  rw [hwaits]
  exact List.cons_ne_nil 2 []

end BbbXinu

/-!
# Who is inside a blocker

An observer keeps the books: a process is inside a blocker, as a reader or as a
writer, from the moment its try returns or it is released from the queue, until
it signals or is killed.  The kernel has no such table, only the counts.
-/

namespace BbbXinu

open LinkedLists KeyedLists Runs

inductive Role where
  | reader | writer
  deriving DecidableEq, Repr

/-- The value of {lit}`rwbflags` for a role, and its share of {lit}`rwcount`. -/
def Role.flag : Role → Int
  | .reader => 1
  | .writer => -1

theorem Role.flag_inj {r r' : Role} (h : r.flag = r'.flag) : r = r' := by
  cases r with
  | reader =>
      cases r' with
      | reader => rfl
      | writer => exact absurd h (by decide)
  | writer =>
      cases r' with
      | reader => exact absurd h (by decide)
      | writer => rfl

/-- The frame of a signal that has released a process in the given role. -/
def Role.frame (thisid rwb : Int) : Role → Frame
  | .reader => .rwbReader thisid rwb
  | .writer => .rwbWriter thisid rwb

/-- Who is inside which blocker, and the role each process asked for last. -/
structure Books where
  inside : Int → Int → Option Role
  want : Int → Role

namespace Books

def empty : Books := { inside := fun _ _ => none, want := fun _ => .reader }

variable (k : Books)

def setInside (rwb pid : Int) (r : Option Role) : Books :=
  { k with inside := upd k.inside rwb (upd (k.inside rwb) pid r) }

/-- The running process tries a blocker. -/
def tries (s : Xinu) (rwb : Int) (role : Role) (c : Call) : Books :=
  if s.isbadrwb rwb then k
  else
    let k := { k with want := upd k.want s.currpid role }
    if s.blocks c then k else k.setInside rwb s.currpid (some role)

/-- The running process signals a blocker. -/
def leaves (s : Xinu) (rwb : Int) : Books :=
  if s.isbadrwb rwb then k else k.setInside rwb s.currpid none

/-- Whoever left a queue is inside. -/
def releases (s s' : Xinu) : Books :=
  { k with inside := fun b p =>
      if p ∈ s.waiters b ∧ p ∉ s'.waiters b then some (k.want p) else k.inside b p }

/-- A killed process is inside nothing. -/
def drops (pid : Int) : Books :=
  { k with inside := fun b => upd (k.inside b) pid none }

def record (s : Xinu) (l : Label) (s' : Xinu) : Books :=
  match l with
  | .call (.rwbTryread rwb) => (k.tries s rwb .reader (.rwbTryread rwb)).releases s s'
  | .call (.rwbTrywrite rwb) => (k.tries s rwb .writer (.rwbTrywrite rwb)).releases s s'
  | .call (.signalrwb rwb) => (k.leaves s rwb).releases s s'
  | .call _ => k.releases s s'
  | .cont =>
      match s.victim with
      | some pid => (k.releases s s').drops pid
      | none => k.releases s s'

end Books

/-- The machine with its books, empty at first. -/
def bookedStep : Xinu × Books → Label → Option (Xinu × Books) :=
  observed Xinu.step Books.record

def BookedBoot (t : Xinu × Books) : Prop := Booted t.1 ∧ t.2 = Books.empty

theorem bookedBoot_sample : BookedBoot (sampleBoot, Books.empty) := ⟨booted_sample, rfl⟩

/-!
## Half-finished signals
-/

/-- A frame of {lit}`_signalrwb` on the given blocker. -/
def Frame.signals (b : Int) : Frame → Bool
  | .rwbWriter _ rwb => rwb = b
  | .rwbReader _ rwb => rwb = b
  | _ => false

def signalsOn (b : Int) (fs : List Frame) : List Frame := fs.filter (Frame.signals b)

/-- No signal on the blocker is half finished. -/
def Xinu.Settled (s : Xinu) (b : Int) : Prop :=
  ∀ p ∈ Xinu.allPids, signalsOn b (s.stack p) = []

instance (s : Xinu) (b : Int) : Decidable (s.Settled b) :=
  inferInstanceAs (Decidable (∀ p ∈ Xinu.allPids, _))

/-- Nobody is inside the blocker. -/
def Books.Vacant (k : Books) (b : Int) : Prop := ∀ p ∈ Xinu.allPids, k.inside b p = none

instance (k : Books) (b : Int) : Decidable (k.Vacant b) :=
  inferInstanceAs (Decidable (∀ p ∈ Xinu.allPids, _))

/-- The shares of all processes inside. -/
def Books.weight (k : Books) (b : Int) : Int :=
  (Xinu.allPids.map fun p => ((k.inside b p).map Role.flag).getD 0).sum

/-- How the processes use a blocker: they do not enter it twice and signal it
only from inside, it is made with a count of 0, and deleted or reset to 0 while
nobody uses it. -/
def Fair (b : Int) (t : Xinu × Books) : Label → Prop
  | .call (.rwbTryread rwb) | .call (.rwbTrywrite rwb) =>
      rwb = b → t.2.inside b t.1.currpid = none
  | .call (.signalrwb rwb) => rwb = b → t.2.inside b t.1.currpid ≠ none
  | .call (.rwbcreate count) => t.1.newrwb.1 = b → count = 0
  | .call (.rwbdelete rwb) => rwb = b →
      t.2.Vacant b ∧ t.1.waiters b = [] ∧ t.1.Settled b
  | .call (.rwbreset rwb count) => rwb = b →
      (t.2.Vacant b ∧ t.1.waiters b = [] ∧ t.1.Settled b) ∧ count = 0
  | _ => True

instance (b : Int) (t : Xinu × Books) (l : Label) : Decidable (Fair b t l) :=
  match l with
  | .call c => by induction c using Call.casesOn <;> unfold Fair <;> infer_instance
  | .cont => inferInstanceAs (Decidable True)

/-- The flag that {lit}`signalrwb` will read is that of the role in which its
caller is inside. -/
def FlagFits (b : Int) (t : Xinu × Books) : Label → Prop
  | .call (.signalrwb rwb) => rwb = b →
      (t.2.inside b t.1.currpid).map Role.flag = some (t.1.rwbflags t.1.currpid)
  | _ => True

instance (b : Int) (t : Xinu × Books) (l : Label) : Decidable (FlagFits b t l) :=
  match l with
  | .call c => by induction c using Call.casesOn <;> unfold FlagFits <;> infer_instance
  | .cont => inferInstanceAs (Decidable True)

/-- Nobody leaves the blocker while a signal on it is half finished. -/
def LeavesSettled (b : Int) (t : Xinu × Books) : Label → Prop
  | .call (.signalrwb rwb) => rwb = b → t.1.Settled b
  | _ => True

instance (b : Int) (t : Xinu × Books) (l : Label) : Decidable (LeavesSettled b t l) :=
  match l with
  | .call c => by induction c using Call.casesOn <;> unfold LeavesSettled <;> infer_instance
  | .cont => inferInstanceAs (Decidable True)

/-- Nobody enters the blocker while a signal on it is half finished. -/
def EntersSettled (b : Int) (t : Xinu × Books) : Label → Prop
  | .call (.rwbTryread rwb) => rwb = b → ¬ t.1.blocks (.rwbTryread b) → t.1.Settled b
  | .call (.rwbTrywrite rwb) => rwb = b → ¬ t.1.blocks (.rwbTrywrite b) → t.1.Settled b
  | _ => True

instance (b : Int) (t : Xinu × Books) (l : Label) : Decidable (EntersSettled b t l) :=
  match l with
  | .call c => by induction c using Call.casesOn <;> unfold EntersSettled <;> infer_instance
  | .cont => inferInstanceAs (Decidable True)

end BbbXinu
