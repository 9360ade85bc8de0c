import BbbXinu.Properties.Tables

/-!
# Frames in runs without blockers

Without blockers the only tracked frames are those of {lit}`kill` between
{lit}`send` and the freeing of its victim, and a victim is freed at once.
-/

namespace BbbXinu

open LinkedLists KeyedLists Runs

/-- No frame of {lit}`_signalrwb` or of a signalling {lit}`kill` is left. -/
def KillsOnly (g : View) : Prop := ∀ p, ∀ f ∈ g.frames p, ∃ victim, f = .killSent victim

/-- The whole invariant of a run without blockers, frames included. -/
structure Plain (w : Watch) (g : View) (s : Xinu) : Prop where
  good : Good w g s
  calm : Calm g
  frames : KillsOnly g
  valid : ∀ p, g.live p → ValidPid p

section

variable {w : Watch} {g g' : View} {s s' : Xinu} {l : Label} {f : Frame} {pid : Int}
  {rest : List Frame}

theorem KillsOnly.same (h : KillsOnly g) (hframes : g'.frames = g.frames) : KillsOnly g' := by
  unfold KillsOnly
  rw [hframes]
  exact h

theorem KillsOnly.setFrames (h : KillsOnly g) (hframes : ∀ p, ∀ f ∈ g'.frames p,
    f ∈ g.frames p ∨ ∃ victim, f = .killSent victim) : KillsOnly g' := by
  intro p f hf
  rcases hframes p f hf with hf | hf
  · exact h p f hf
  · exact hf

theorem KillsOnly.callMoves {c : Call} (h : KillsOnly g) (hcall : c.onBlocker = false)
    (hm : g.CallMoves w s c g' s') : KillsOnly g' := by
  have hstill : g.Still g' → KillsOnly g' := fun hs => h.same hs.frames
  have hsleep : ∀ blocks due, g.MaySleep blocks s.currpid due g' → KillsOnly g' := by
    intro blocks due hs
    rcases hs with ⟨_, rfl⟩ | ⟨_, l₁, l₂, _, rfl⟩
    · exact h
    · exact h.same rfl
  have hpush : ∀ cur victim, KillsOnly (g.pushFrame cur (.killSent victim)) := by
    intro cur victim
    apply h.setFrames
    intro p f hf
    change f ∈ upd g.frames cur _ p at hf
    rw [upd_apply] at hf
    split at hf
    · rename_i hp
      rcases List.mem_cons.mp hf with hf | hf
      · exact Or.inr ⟨victim, hf⟩
      · exact Or.inl (hp ▸ hf)
    · exact Or.inl hf
  cases c with
  | create ssize priority =>
      rcases hm with rfl | ⟨pid, _, _, rfl⟩
      · exact h
      · apply h.setFrames
        intro p f hf
        change f ∈ upd g.frames pid [] p at hf
        rw [upd_apply] at hf
        split at hf
        · cases hf
        · exact Or.inl hf
  | kill pid =>
      rcases hm with rfl | ⟨_, rfl | rfl⟩
      · exact h
      · exact hpush _ _
      · exact (hpush _ _).same rfl
  | send pid msg =>
      rcases hm with rfl | rfl
      · exact h
      · exact h.same rfl
  | recvtime maxwait => exact hsleep _ _ hm
  | sleepms delay => exact hsleep _ _ hm
  | sleep delay => exact hsleep _ _ hm
  | clkhandler =>
      rcases hm with ⟨l₁, l₂, _, _, _, rfl⟩
      exact h.same rfl
  | rwbcreate count => cases hcall
  | rwbdelete rwb => cases hcall
  | rwbreset rwb count => cases hcall
  | rwbTryread rwb => cases hcall
  | rwbTrywrite rwb => cases hcall
  | signalrwb rwb => cases hcall
  | resume pid => exact hstill hm
  | suspend pid => exact hstill hm
  | chprio pid newprio => exact hstill hm
  | yield => exact hstill hm
  | semcreate count => exact hstill hm
  | wait sem => exact hstill hm
  | signal sem => exact hstill hm
  | signaln sem count => exact hstill hm
  | semreset sem count => exact hstill hm
  | semdelete sem => exact hstill hm
  | receive => exact hstill hm
  | recvclr => exact hstill hm
  | setScheduler newval => exact hstill hm

/-- A tracked frame on top of a stack is that of a {lit}`kill`. -/
theorem Plain.tracked (hP : Plain w g s) (hs : s.stack s.currpid = f :: rest)
    (hf : f.tracked = true) : ∃ victim, f = .killSent victim := by
  apply hP.frames s.currpid
  rw [← hP.good.ok.inv.frames, hs, List.filter_cons_of_pos hf]
  exact List.mem_cons_self

theorem KillsOnly.popped (h : KillsOnly g) (pid : Int) (f : Frame) :
    KillsOnly (g.popped pid f) := by
  unfold View.popped
  split
  · apply h.setFrames
    intro p f' hf
    change f' ∈ upd g.frames pid _ p at hf
    rw [upd_apply] at hf
    split at hf
    · rename_i hp
      exact Or.inl (hp ▸ List.mem_of_mem_tail hf)
    · exact Or.inl hf
  · exact h

/-- A victim leaves the queue it waits or sleeps on. -/
def View.offQueue (g : View) (pid : Int) (prstate : PrState) (prsem : Int) : View :=
  match prstate with
  | .sleep | .rectim => g.unqueue sleepq pid
  | .wait => g.unqueue (semq prsem) pid
  | .free | .curr | .ready | .recv | .susp => g

/-- Without flags {lit}`kill` frees its victim at once. -/
theorem Calm.killState_eq (hc : Calm g) {prstate : PrState} {prsem : Int}
    (hw : prstate = .wait → ¬ isbadsem prsem) (cur pid : Int) :
    g.killState cur pid prstate prsem =
      (g.offQueue pid prstate prsem).setLive pid False := by
  unfold View.killState View.offQueue
  cases prstate with
  | ready =>
      dsimp only
      unfold View.killReady
      rw [if_neg fun h => h.1 (hc.flags pid)]
  | wait =>
      have hpos : ¬ prsem < -1 := by
        have hgood := hw rfl
        simp only [isbadsem, not_or, Int.not_lt] at hgood
        omega
      dsimp only
      rw [if_neg hpos]
  | _ => rfl

theorem offQueue_frames (g : View) (pid : Int) (prstate : PrState) (prsem : Int) :
    (g.offQueue pid prstate prsem).frames = g.frames := by
  unfold View.offQueue
  cases prstate <;> rfl

/-- A process that waits does so on a semaphore. -/
theorem Plain.waits (hP : Plain w g s) (h : (s.proctab pid).prstate = .wait) :
    ¬ isbadsem (s.proctab pid).prsem :=
  (tablesAgree_of_good hP.good hP.calm).waits pid h

/-- What the second half of {lit}`kill` does to the view. -/
theorem Plain.killSent_eq (hP : Plain w g s) (pid : Int) :
    (g.popped s.currpid (.killSent pid)).frameMove s (.killSent pid) =
      ((g.popped s.currpid (.killSent pid)).offQueue pid (s.proctab pid).prstate
        (s.proctab pid).prsem).setLive pid False :=
  (hP.calm.popped _ _).killState_eq (fun h => hP.waits h) s.currpid pid

theorem Plain.frameMove_frames (hP : Plain w g s) (hs : s.stack s.currpid = f :: rest) :
    ((g.popped s.currpid f).frameMove s f).frames = (g.popped s.currpid f).frames := by
  have hno : f.tracked = true → ∃ victim, f = .killSent victim := hP.tracked hs
  cases f with
  | killSent pid =>
      rw [hP.killSent_eq]
      exact offQueue_frames _ _ _ _
  | killSignaled pid =>
      rcases hno rfl with ⟨victim, h⟩
      cases h
  | rwbWriter thisid rwb =>
      rcases hno rfl with ⟨victim, h⟩
      cases h
  | rwbReader thisid rwb =>
      rcases hno rfl with ⟨victim, h⟩
      cases h
  | _ => rfl

/-- Only {lit}`create` changes who is live. -/
theorem callMoves_same_live {c : Call} (hcall : c.onBlocker = false)
    (hcreate : ∀ n prio, c ≠ .create n prio) (hm : g.CallMoves w s c g' s') :
    g'.live = g.live := by
  have hstill : g.Still g' → g'.live = g.live := fun h => h.live
  have hsleep : ∀ blocks due, g.MaySleep blocks s.currpid due g' → g'.live = g.live := by
    intro blocks due h
    rcases h with ⟨_, rfl⟩ | ⟨_, l₁, l₂, _, rfl⟩
    · rfl
    · rfl
  cases c with
  | create ssize priority => exact absurd rfl (hcreate ssize priority)
  | kill pid =>
      rcases hm with rfl | ⟨_, rfl | rfl⟩
      · rfl
      · rfl
      · rfl
  | send pid msg =>
      rcases hm with rfl | rfl
      · rfl
      · rfl
  | recvtime maxwait => exact hsleep _ _ hm
  | sleepms delay => exact hsleep _ _ hm
  | sleep delay => exact hsleep _ _ hm
  | clkhandler =>
      rcases hm with ⟨l₁, l₂, _, _, _, rfl⟩
      rfl
  | rwbcreate count => cases hcall
  | rwbdelete rwb => cases hcall
  | rwbreset rwb count => cases hcall
  | rwbTryread rwb => cases hcall
  | rwbTrywrite rwb => cases hcall
  | signalrwb rwb => cases hcall
  | resume pid => exact hstill hm
  | suspend pid => exact hstill hm
  | chprio pid newprio => exact hstill hm
  | yield => exact hstill hm
  | semcreate count => exact hstill hm
  | wait sem => exact hstill hm
  | signal sem => exact hstill hm
  | signaln sem count => exact hstill hm
  | semreset sem count => exact hstill hm
  | semdelete sem => exact hstill hm
  | receive => exact hstill hm
  | recvclr => exact hstill hm
  | setScheduler newval => exact hstill hm

/-- How a call changes who is live: {lit}`create` adds a process. -/
theorem callMoves_live {c : Call} (hcall : c.onBlocker = false)
    (hm : g.CallMoves w s c g' s') :
    g'.live = g.live ∨ ∃ pid, ¬ g.live pid ∧ ValidPid pid ∧ g'.live = upd g.live pid True := by
  by_cases hcreate : ∃ n prio, c = .create n prio
  · rcases hcreate with ⟨n, prio, rfl⟩
    rcases hm with rfl | ⟨pid, hdead, hvalid, rfl⟩
    · exact Or.inl rfl
    · exact Or.inr ⟨pid, hdead, hvalid, rfl⟩
  · left
    exact callMoves_same_live hcall (fun n prio h => hcreate ⟨n, prio, h⟩) hm

theorem popped_live (g : View) (pid : Int) (f : Frame) : (g.popped pid f).live = g.live := by
  unfold View.popped
  split
  · rfl
  · rfl

theorem offQueue_live (g : View) (pid : Int) (prstate : PrState) (prsem : Int) :
    (g.offQueue pid prstate prsem).live = g.live := by
  unfold View.offQueue
  cases prstate <;> rfl

/-- A frame changes who is live only if it is the rest of a {lit}`kill`. -/
theorem Plain.frameMove_live (hP : Plain w g s) (hs : s.stack s.currpid = f :: rest) :
    ((g.popped s.currpid f).frameMove s f).live =
      match f with
      | .killSent pid => upd g.live pid False
      | _ => g.live := by
  have hno : f.tracked = true → ∃ victim, f = .killSent victim := hP.tracked hs
  have hlive := popped_live g s.currpid f
  cases f with
  | killSent pid =>
      rw [hP.killSent_eq]
      show upd (View.offQueue _ pid _ _).live pid False = _
      rw [offQueue_live, hlive]
  | killSignaled pid =>
      rcases hno rfl with ⟨victim, h⟩
      cases h
  | rwbWriter thisid rwb =>
      rcases hno rfl with ⟨victim, h⟩
      cases h
  | rwbReader thisid rwb =>
      rcases hno rfl with ⟨victim, h⟩
      cases h
  | _ => exact hlive

theorem plain_sysinit (w : Watch) (mem : Mem) (rand : Nat → Nat) :
    Plain w bootView (Xinu.sysinit mem rand) := by
  constructor
  · exact sysinit_good w mem rand
  · exact calm_boot
  · intro p f hf
    cases hf
  · intro p hp
    change p = NULLPROC at hp
    rw [hp]
    decide

theorem Plain.moves (hP : Plain w g s) (hfit : Fits w s l)
    (hcall : ∀ c, l = .call c → c.onBlocker = false) (hstep : s.step l = some s') :
    ∃ g', g.Moves w s l g' s' ∧ Plain w g' s' := by
  rcases step_good hP.good hfit hstep with ⟨g', hmoves, hG'⟩
  refine ⟨g', hmoves, hG', hP.calm.moves hP.good hcall hmoves, ?_, ?_⟩
  · cases l with
    | call c => exact hP.frames.callMoves (hcall c rfl) hmoves
    | cont =>
        rcases hmoves with ⟨f, rest, hs, rfl⟩
        exact (hP.frames.popped s.currpid f).same (hP.frameMove_frames hs)
  · intro p hp
    cases l with
    | call c =>
        rcases callMoves_live (hcall c rfl) hmoves with hlive | ⟨pid, _, hvalid, hlive⟩
        · rw [hlive] at hp
          exact hP.valid p hp
        · rw [hlive, upd_apply] at hp
          split at hp
          · rename_i he
            exact he ▸ hvalid
          · exact hP.valid p hp
    | cont =>
        rcases hmoves with ⟨f, rest, hs, rfl⟩
        rw [hP.frameMove_live hs] at hp
        cases f with
        | killSent pid =>
            change upd g.live pid False p at hp
            rw [upd_apply] at hp
            split at hp
            · exact absurd hp id
            · exact hP.valid p hp
        | _ => exact hP.valid p hp

theorem Plain.calmState (hP : Plain w g s) : CalmState w s := ⟨g, hP.good, hP.calm⟩

/-- What the invariant asks of a step that {lit}`TableCalls` allows. -/
theorem TableCalls.fits_plain (h : TableCalls s l) (hP : Plain .plain g s) :
    Fits .plain s l := h.fits hP.calmState id False.elim False.elim

theorem Plain.step (hP : Plain .plain g s) (henv : TableCalls s l)
    (hstep : s.step l = some s') : ∃ g', g.Moves .plain s l g' s' ∧ Plain .plain g' s' :=
  hP.moves (henv.fits_plain hP) henv.calm hstep

/-- Only {lit}`create` starts a process. -/
theorem Plain.born {p : Int} (hP : Plain .plain g s) (henv : TableCalls s l)
    (hstep : s.step l = some s') (hfree : (s.proctab p).prstate = .free)
    (hlive : (s'.proctab p).prstate ≠ .free) : ∃ n prio, l = .call (.create n prio) := by
  rcases hP.step henv hstep with ⟨g', hmoves, hP'⟩
  have hdead : ¬ g.live p := fun h => (hP.good.ok.inv.live p).mp h hfree
  have hlive' : g'.live p := (hP'.good.ok.inv.live p).mpr hlive
  cases l with
  | call c =>
      by_contra hno
      have hcreate : ∀ n prio, c ≠ .create n prio := by
        intro n prio h
        rw [h] at hno
        exact hno ⟨n, prio, rfl⟩
      rw [callMoves_same_live henv.1 hcreate hmoves] at hlive'
      exact hdead hlive'
  | cont =>
      rcases hmoves with ⟨f, rest, hs, rfl⟩
      rw [hP.frameMove_live hs] at hlive'
      cases f with
      | killSent pid =>
          change upd g.live pid False p at hlive'
          rw [upd_apply] at hlive'
          split at hlive'
          · exact absurd hlive' id
          · exact absurd hlive' hdead
      | _ => exact absurd hlive' hdead

end

end BbbXinu
