import BbbXinu.Invariant.BlockMoves
import BbbXinu.Lib.Runs

/-!
# Runs without blockers

The runs of the machine start in the state that {lit}`sysinit` leaves.  As long
as no blocker is used, no process has a flag, so {lit}`kill` never signals in
the name of its victim, and every process is on the queue that it belongs on.
-/

namespace BbbXinu

open LinkedLists KeyedLists Runs

/-!
## Initial states
-/

/-- The state after {lit}`sysinit`, for some free memory and some values of
{lit}`rand`. -/
def Booted (s : Xinu) : Prop := ∃ mem rand, s = Xinu.sysinit mem rand

/-- One free block behind the list head. -/
def sampleMem : Mem where
  memlist := 0x1000
  minheap := 0x2000
  maxheap := 0x20002000
  block := fun addr =>
    if addr = 0x1000 then { mnext := 0x2000, mlength := 0, mprev := 0x2000 }
    else { mnext := 0x1000, mlength := 0x20000000, mprev := 0x1000 }

/-- A machine to run examples on. -/
def sampleBoot : Xinu := Xinu.sysinit sampleMem fun n => n * 7919 + 3

theorem booted_sample : Booted sampleBoot := ⟨_, _, rfl⟩

/-- Calls are made outside the kernel. -/
theorem stack_of_call {s : Xinu} {c : Call}
    (hstep : s.step (.call c) ≠ none) :
    s.stack s.currpid = [] := by
  cases hs : s.stack s.currpid with
  | nil => rfl
  | cons f rest =>
      exfalso
      apply hstep
      unfold Xinu.step
      rw [hs]
      split
      · rfl
      · rfl

/-!
## Calls
-/

/-- The calls of {lit}`rwblocker.c`. -/
def Call.onBlocker : Call → Bool
  | .rwbcreate _ | .rwbdelete _ | .rwbreset _ _ | .rwbTryread _ | .rwbTrywrite _
  | .signalrwb _ => true
  | _ => false

def Call.isSetScheduler : Call → Bool
  | .setScheduler _ => true
  | _ => false


/-- The null process does not give up the processor to wait for something. -/
def NullRuns (s : Xinu) (c : Call) : Prop := s.currpid = NULLPROC → ¬ s.blocks c

instance (s : Xinu) (c : Call) : Decidable (NullRuns s c) :=
  inferInstanceAs (Decidable (_ → _))

/-- Any call but those on blockers and {lit}`set_scheduler`, and any interrupt. -/
def TableCalls (s : Xinu) : Label → Prop
  | .call c => c.onBlocker = false ∧ c.isSetScheduler = false ∧ NullRuns s c
  | .cont => True

instance (s : Xinu) (l : Label) : Decidable (TableCalls s l) := by
  induction l using Label.casesOn <;> unfold TableCalls <;> infer_instance

/-- A {lit}`chprio` leaves every key of the ready list right, and the running
process on top. -/
def OrderKept (s : Xinu) : Label → Prop
  | .call (.chprio pid newprio) => s.KeepsOrder pid newprio
  | _ => True

instance (s : Xinu) (l : Label) : Decidable (OrderKept s l) :=
  match l with
  | .call c => by induction c using Call.casesOn <;> unfold OrderKept <;> infer_instance
  | .cont => inferInstanceAs (Decidable True)

/-!
## Views without flags
-/

/-- No process is in limbo, dropped, flagged or waiting on a blocker. -/
structure Calm (g : View) : Prop where
  queues : ∀ b, ValidRwb b → g.lists (rwq b) = []
  limbo : ∀ p, ¬ g.limbo p
  lost : ∀ p, ¬ g.lost p
  flags : ∀ p, g.flags p = 0

theorem calm_boot : Calm bootView :=
  ⟨fun _ _ => rfl, fun _ => id, fun _ => id, fun _ => rfl⟩

section

variable {w : Watch} {g g' : View} {s s' : Xinu} {l : Label} {f : Frame}

theorem Calm.congr (hc : Calm g) (hlimbo : g'.limbo = g.limbo) (hlost : g'.lost = g.lost)
    (hflags : g'.flags = g.flags)
    (hlists : ∀ b, ValidRwb b → g.lists (rwq b) = [] → g'.lists (rwq b) = []) : Calm g' where
  queues := fun b hb => hlists b hb (hc.queues b hb)
  limbo := fun p => hlimbo ▸ hc.limbo p
  lost := fun p => hlost ▸ hc.lost p
  flags := fun p => hflags ▸ hc.flags p

theorem Calm.same (hc : Calm g) (hlimbo : g'.limbo = g.limbo) (hlost : g'.lost = g.lost)
    (hflags : g'.flags = g.flags) (hlists : g'.lists = g.lists) : Calm g' :=
  hc.congr hlimbo hlost hflags fun b _ h => by rw [hlists, h]

theorem Calm.unqueue (hc : Calm g) (q pid : Int) : Calm (g.unqueue q pid) := by
  refine hc.congr ?_ ?_ ?_ ?_
  · rfl
  · rfl
  · rfl
  intro b _ h
  show upd g.lists q _ (rwq b) = []
  rw [upd_apply]
  split
  · rename_i hq
    rw [← hq, h]
    rfl
  · exact h

theorem Calm.setLive (hc : Calm g) (pid : Int) (alive : Prop) : Calm (g.setLive pid alive) :=
  hc.same rfl rfl rfl rfl

theorem Calm.killState (hc : Calm g) (cur pid : Int) (prstate : PrState) (prsem : Int) :
    Calm (g.killState cur pid prstate prsem) := by
  unfold View.killState
  cases prstate with
  | ready =>
      dsimp only
      unfold View.killReady
      rw [if_neg (fun h => h.1 (hc.flags pid))]
      exact hc.setLive pid False
  | wait =>
      dsimp only
      split
      · unfold View.killWaiting
        apply Calm.setLive
        apply Calm.unqueue
        refine ⟨hc.queues, hc.limbo, hc.lost, fun p => ?_⟩
        show upd g.flags pid 0 p = 0
        rw [upd_apply]
        split
        · rfl
        · exact hc.flags p
      · exact (hc.unqueue _ pid).setLive pid False
  | sleep => exact (hc.unqueue _ pid).setLive pid False
  | rectim => exact (hc.unqueue _ pid).setLive pid False
  | free => exact hc.setLive pid False
  | curr => exact hc.setLive pid False
  | recv => exact hc.setLive pid False
  | susp => exact hc.setLive pid False

theorem Calm.popped (hc : Calm g) (pid : Int) (f : Frame) : Calm (g.popped pid f) := by
  unfold View.popped
  split
  · exact hc.same rfl rfl rfl rfl
  · exact hc

theorem Calm.frameMove (hc : Calm g) (hb : ∀ thisid rwb, f = .rwbReader thisid rwb → ValidRwb rwb)
    (s : Xinu) : Calm (g.frameMove s f) := by
  cases f with
  | killSent pid => exact hc.killState _ pid _ _
  | killSignaled pid => exact ⟨hc.queues, fun p h => hc.limbo p h.2, hc.lost, hc.flags⟩
  | rwbWriter thisid rwb => exact hc.same rfl rfl rfl rfl
  | rwbReader thisid rwb =>
      have hempty := hc.queues rwb (hb thisid rwb rfl)
      have hmove : g.frameMove s (.rwbReader thisid rwb) =
          g.setRwb rwb fun e => { e with rwcount := e.rwcount + 1 } := by
        have hnext : (g.setRwb rwb fun e => { e with rwcount := e.rwcount + 1 }).nextFlag rwb =
            0 := by
          have hlist : (g.setRwb rwb fun e => { e with rwcount := e.rwcount + 1 }).lists
              (rwq rwb) = [] := hempty
          unfold View.nextFlag
          rw [hlist]
        unfold View.frameMove View.signalReader View.signalReaders
        dsimp only
        rw [hnext, if_neg (by decide)]
      rw [hmove]
      exact hc.same rfl rfl rfl rfl
  | _ => exact hc

theorem Calm.callMoves {c : Call} (hc : Calm g) (hcall : c.onBlocker = false)
    (h : g.CallMoves w s c g' s') : Calm g' := by
  have hstill : g.Still g' → Calm g' := by
    intro h
    apply hc.congr h.limbo h.lost h.flags
    intro b hb hempty
    rw [h.lists _ fun sem hsem he => semq_ne_rwq hsem hb he.symm, hempty]
  have hsleepq : ∀ l, Calm (g.setList sleepq l) := by
    intro l
    refine hc.congr ?_ ?_ ?_ ?_
    · rfl
    · rfl
    · rfl
    intro b hb hempty
    exact (upd_of_ne (rwq_ne_sleepq hb)).trans hempty
  have hsleep : ∀ blocks due, g.MaySleep blocks s.currpid due g' → Calm g' := by
    rintro blocks due (⟨_, rfl⟩ | ⟨_, l₁, l₂, _, rfl⟩)
    · exact hc
    · exact (hsleepq _).same rfl rfl rfl rfl
  have hpush : ∀ pid f, Calm (g.pushFrame pid f) := fun pid f => hc.same rfl rfl rfl rfl
  cases c with
  | create ssize priority =>
      rcases h with rfl | ⟨pid, _, _, rfl⟩
      · exact hc
      · exact hc.same rfl rfl rfl rfl
  | kill pid =>
      rcases h with rfl | ⟨_, rfl | rfl⟩
      · exact hc
      · exact hpush _ _
      · exact (hpush _ _).unqueue _ _
  | send pid msg =>
      rcases h with rfl | rfl
      · exact hc
      · exact hc.unqueue _ _
  | recvtime maxwait => exact hsleep _ _ h
  | sleepms delay => exact hsleep _ _ h
  | sleep delay => exact hsleep _ _ h
  | rwbcreate count => cases hcall
  | rwbdelete rwb => cases hcall
  | rwbreset rwb count => cases hcall
  | rwbTryread rwb => cases hcall
  | rwbTrywrite rwb => cases hcall
  | signalrwb rwb => cases hcall
  | clkhandler =>
      rcases h with ⟨l₁, l₂, _, _, _, rfl⟩
      exact (hsleepq l₂).same rfl rfl rfl rfl
  | resume pid => exact hstill h
  | suspend pid => exact hstill h
  | chprio pid newprio => exact hstill h
  | yield => exact hstill h
  | semcreate count => exact hstill h
  | wait sem => exact hstill h
  | signal sem => exact hstill h
  | signaln sem count => exact hstill h
  | semreset sem count => exact hstill h
  | semdelete sem => exact hstill h
  | receive => exact hstill h
  | recvclr => exact hstill h
  | setScheduler newval => exact hstill h

theorem Calm.moves (hc : Calm g) (hG : Good w g s)
    (hcall : ∀ c, l = .call c → c.onBlocker = false) (h : g.Moves w s l g' s') : Calm g' := by
  cases l with
  | call c => exact hc.callMoves (hcall c rfl) h
  | cont =>
      rcases h with ⟨f, rest, hs, rfl⟩
      apply (hc.popped s.currpid f).frameMove
      intro thisid rwb hf
      rw [hf] at hs
      exact validRwb_of_frame hG.ok.inv hG.stacked hs

/-- Without limbo every process is where it belongs. -/
theorem Inv.linked (hI : Inv w g EMPTY s) {pid : Int} (hlimbo : ¬ g.limbo pid)
    (hlost : ¬ g.lost pid) : s.Linked pid := by
  unfold Xinu.Linked
  cases hhome : home (s.proctab pid) with
  | none => trivial
  | some q => exact (hI.mem_iff q pid).mpr ⟨hhome, hI.ne_empty hhome, hlimbo, hlost⟩

/-- The whole invariant of a run without blockers. -/
structure CalmState (w : Watch) (s : Xinu) : Prop where
  view : ∃ g, Good w g s ∧ Calm g

theorem CalmState.boot (hs : Booted s) : CalmState w s := by
  rcases hs with ⟨mem, rand, rfl⟩
  exact ⟨bootView, sysinit_good w mem rand, calm_boot⟩

theorem CalmState.linked (hC : CalmState w s) (pid : Int) : s.Linked pid := by
  rcases hC.view with ⟨g, hG, hc⟩
  exact hG.ok.inv.linked (hc.limbo pid) (hc.lost pid)

theorem CalmState.step (hC : CalmState w s) (hfit : Fits w s l)
    (hcall : ∀ c, l = .call c → c.onBlocker = false) (hstep : s.step l = some s') :
    CalmState w s' := by
  rcases hC.view with ⟨g, hG, hc⟩
  rcases step_good hG hfit hstep with ⟨g', hmoves, hG'⟩
  exact ⟨g', hG', hc.moves hG hcall hmoves⟩

theorem TableCalls.fits (h : TableCalls s l) (hC : CalmState w s) (hcount : ¬ w.count)
    (hkeys : w.keys → OrderKept s l) (hdelays : w.delays → TimesFit s l) : Fits w s l := by
  cases l with
  | call c =>
      refine ⟨h.2.2, ?_⟩
      cases c with
      | suspend pid => exact ⟨fun _ => hC.linked pid, fun hw => absurd hw hcount⟩
      | chprio pid newprio => exact hkeys
      | sleepms delay => exact hdelays
      | sleep delay => exact hdelays
      | recvtime maxwait => exact hdelays
      | setScheduler newval => cases h.2.1
      | _ => trivial
  | cont =>
      unfold Fits
      dsimp only
      split
      · exact ⟨hC.linked _, fun hw => absurd hw hcount⟩
      · trivial

theorem TableCalls.calm (h : TableCalls s l) (c : Call) (hl : l = .call c) :
    c.onBlocker = false := by
  rw [hl] at h
  exact h.1

end

end BbbXinu
