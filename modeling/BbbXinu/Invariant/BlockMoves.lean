import BbbXinu.Invariant.Steps

/-!
# Steps as the blockers see them

Most steps leave the blockers, their queues, the flags and the frames of
{lit}`_signalrwb` alone.  A step that does not is one of a few moves.
-/

namespace BbbXinu

open LinkedLists KeyedLists

/-- The views agree on what the blockers see. -/
structure View.SameBlockers (g g' : View) : Prop where
  live : g'.live = g.live
  limbo : g'.limbo = g.limbo
  tab : g'.tab = g.tab
  flags : g'.flags = g.flags
  frames : g'.frames = g.frames
  lists : ∀ b, ValidRwb b → g'.lists (rwq b) = g.lists (rwq b)

/-- The process that the next frame kills. -/
def Xinu.victim (s : Xinu) : Option Int :=
  match s.stack s.currpid with
  | .killSent pid :: _ => some pid
  | _ => none

theorem Xinu.victim_eq {s : Xinu} {pid : Int} {rest : List Frame}
    (h : s.stack s.currpid = .killSent pid :: rest) : s.victim = some pid := by
  unfold Xinu.victim
  rw [h]

/-- The step is no call on a usable blocker and kills nobody. -/
def Xinu.OffBlockers (s : Xinu) : Label → Prop
  | .call (.rwbTryread rwb) | .call (.rwbTrywrite rwb) | .call (.signalrwb rwb) =>
      s.isbadrwb rwb
  | .call _ => True
  | .cont => s.victim = none

/-- What a step does to the blockers. -/
inductive View.BlockMove (g : View) (s : Xinu) : Label → View → Prop where
  | keep {l : Label} {g' : View} (hl : s.OffBlockers l) (h : g.SameBlockers g') :
      BlockMove g s l g'
  | born {ssize : Nat} {priority pid : Int} (hdead : ¬ g.live pid) (hpid : ValidPid pid) :
      BlockMove g s (.call (.create ssize priority))
        ((g.setLive pid True).setFrames pid [])
  | kill {pid : Int} {g' : View} (hnull : pid ≠ NULLPROC)
      (h : (g.pushFrame s.currpid (.killSent pid)).SameBlockers g') :
      BlockMove g s (.call (.kill pid)) g'
  | create {count : Int} (hcount : 0 ≤ count) (hb : ValidRwb s.newrwb.1)
      (hfree : (g.tab s.newrwb.1).rwstate = .free) :
      BlockMove g s (.call (.rwbcreate count)) (g.create s.newrwb.1 count)
  | delete {rwb : Int} (hu : g.Usable rwb) :
      BlockMove g s (.call (.rwbdelete rwb)) (g.delete rwb)
  | reset {rwb count : Int} (hcount : 0 ≤ count) (hu : g.Usable rwb) :
      BlockMove g s (.call (.rwbreset rwb count)) (g.reset rwb count)
  | tryread {rwb : Int} (hu : g.Usable rwb) :
      BlockMove g s (.call (.rwbTryread rwb)) (g.tryread s.currpid rwb)
  | trywrite {rwb : Int} (hu : g.Usable rwb) :
      BlockMove g s (.call (.rwbTrywrite rwb)) (g.trywrite s.currpid rwb)
  | signal {rwb : Int} (hu : g.Usable rwb) :
      BlockMove g s (.call (.signalrwb rwb)) (g.signalrwb s.currpid s.currpid rwb)
  | writer {thisid rwb : Int} {rest : List Frame}
      (hs : g.frames s.currpid = .rwbWriter thisid rwb :: rest) (hv : s.victim = none) :
      BlockMove g s .cont ((g.setFrames s.currpid rest).signalWriter rwb)
  | reader {thisid rwb : Int} {rest : List Frame}
      (hs : g.frames s.currpid = .rwbReader thisid rwb :: rest) (hv : s.victim = none) :
      BlockMove g s .cont ((g.setFrames s.currpid rest).signalReader s.currpid thisid rwb)
  | killSent {pid : Int} {rest : List Frame}
      (hs : g.frames s.currpid = .killSent pid :: rest) (hv : s.victim = some pid) :
      BlockMove g s .cont ((g.setFrames s.currpid rest).killState s.currpid pid
        (s.proctab pid).prstate (s.proctab pid).prsem)
  | killSignaled {pid : Int} {rest : List Frame}
      (hs : g.frames s.currpid = .killSignaled pid :: rest) (hv : s.victim = none) :
      BlockMove g s .cont ((g.setFrames s.currpid rest).killSignaled pid)

section

variable {w : Watch} {g g' : View} {s s' : Xinu} {l : Label} {rwb : Int}

theorem View.SameBlockers.refl (g : View) : g.SameBlockers g :=
  ⟨rfl, rfl, rfl, rfl, rfl, fun _ _ => rfl⟩

theorem View.SameBlockers.of_still (h : g.Still g') : g.SameBlockers g' :=
  ⟨h.live, h.limbo, h.tab, h.flags, h.frames,
    fun _ hb => h.lists _ fun _ hsem he => semq_ne_rwq hsem hb he.symm⟩

/-- Other queues may change. -/
theorem View.SameBlockers.of_setList (g : View) {q : Int} (l : List Int)
    (hq : ∀ b, ValidRwb b → rwq b ≠ q) : g.SameBlockers (g.setList q l) :=
  ⟨rfl, rfl, rfl, rfl, rfl, fun b hb => upd_of_ne (hq b hb)⟩

theorem View.SameBlockers.of_sleepq (g : View) (l : List Int) :
    g.SameBlockers (g.setList sleepq l) :=
  .of_setList g l fun _ hb => rwq_ne_sleepq hb

theorem View.SameBlockers.of_maySleep {blocks : Prop} {pid due : Int}
    (h : g.MaySleep blocks pid due g') : g.SameBlockers g' := by
  rcases h with ⟨_, rfl⟩ | ⟨_, l₁, l₂, _, rfl⟩
  · exact .refl _
  · have hsame := View.SameBlockers.of_sleepq g (l₁ ++ pid :: l₂)
    exact ⟨hsame.live, hsame.limbo, hsame.tab, hsame.flags, hsame.frames, hsame.lists⟩

/-- A call on a blocker that does not exist has no effect. -/
theorem isbadrwb_of_not_usable (hI : Inv w g EMPTY s) (h : ¬ g.Usable rwb) :
    s.isbadrwb rwb :=
  not_not.mp fun hn => h ((usable_iff hI rwb).mpr hn)

/-- The frame on top of the stack is the first of the tracked ones. -/
theorem popped_eq (hI : Inv w g EMPTY s) {f : Frame} {rest : List Frame}
    (hs : s.stack s.currpid = f :: rest) (hf : f.tracked = true) :
    g.frames s.currpid = f :: rest.filter Frame.tracked ∧
      g.popped s.currpid f = g.setFrames s.currpid (rest.filter Frame.tracked) := by
  have hframes : g.frames s.currpid = f :: rest.filter Frame.tracked := by
    rw [← hI.frames s.currpid, hs, List.filter_cons_of_pos hf]
  refine ⟨hframes, ?_⟩
  unfold View.popped
  rw [if_pos hf, hframes]
  rfl

theorem callMoves_blockMove (hI : Inv w g EMPTY s) {c : Call}
    (h : g.CallMoves w s c g' s') : g.BlockMove s (.call c) g' := by
  cases c with
  | create ssize priority =>
      rcases h with rfl | ⟨pid, hdead, hpid, rfl⟩
      · exact .keep trivial (.refl _)
      · exact .born hdead hpid
  | kill pid =>
      rcases h with rfl | ⟨hnull, rfl | rfl⟩
      · exact .keep trivial (.refl _)
      · exact .kill hnull (.refl _)
      · exact .kill hnull (.of_sleepq _ _)
  | send pid msg =>
      rcases h with rfl | rfl
      · exact .keep trivial (.refl _)
      · exact .keep trivial (.of_sleepq g _)
  | recvtime maxwait => exact .keep trivial (.of_maySleep h)
  | sleepms delay => exact .keep trivial (.of_maySleep h)
  | sleep delay => exact .keep trivial (.of_maySleep h)
  | rwbcreate count =>
      rcases h with rfl | ⟨hcount, hb, hfree, rfl⟩
      · exact .keep trivial (.refl _)
      · exact .create hcount hb hfree
  | rwbdelete rwb =>
      unfold View.CallMoves at h
      dsimp only at h
      rw [h]
      split
      · rename_i hu
        exact .delete hu
      · exact .keep trivial (.refl g)
  | rwbreset rwb count =>
      unfold View.CallMoves at h
      dsimp only at h
      rw [h]
      split
      · rename_i hu
        exact .reset hu.1 hu.2
      · exact .keep trivial (.refl g)
  | rwbTryread rwb =>
      unfold View.CallMoves at h
      dsimp only at h
      rw [h]
      split
      · rename_i hu
        exact .tryread hu
      · rename_i hu
        exact .keep (isbadrwb_of_not_usable hI hu) (.refl g)
  | rwbTrywrite rwb =>
      unfold View.CallMoves at h
      dsimp only at h
      rw [h]
      split
      · rename_i hu
        exact .trywrite hu
      · rename_i hu
        exact .keep (isbadrwb_of_not_usable hI hu) (.refl g)
  | signalrwb rwb =>
      unfold View.CallMoves at h
      dsimp only at h
      rw [h]
      split
      · rename_i hu
        exact .signal hu
      · rename_i hu
        exact .keep (isbadrwb_of_not_usable hI hu) (.refl g)
  | clkhandler =>
      rcases h with ⟨l₁, l₂, _, _, _, rfl⟩
      have hsame := View.SameBlockers.of_sleepq g l₂
      exact .keep trivial
        ⟨hsame.live, hsame.limbo, hsame.tab, hsame.flags, hsame.frames, hsame.lists⟩
  | resume pid => exact .keep trivial (.of_still h)
  | suspend pid => exact .keep trivial (.of_still h)
  | chprio pid newprio => exact .keep trivial (.of_still h)
  | yield => exact .keep trivial (.of_still h)
  | semcreate count => exact .keep trivial (.of_still h)
  | wait sem => exact .keep trivial (.of_still h)
  | signal sem => exact .keep trivial (.of_still h)
  | signaln sem count => exact .keep trivial (.of_still h)
  | semreset sem count => exact .keep trivial (.of_still h)
  | semdelete sem => exact .keep trivial (.of_still h)
  | receive => exact .keep trivial (.of_still h)
  | recvclr => exact .keep trivial (.of_still h)
  | setScheduler newval => exact .keep trivial (.of_still h)

theorem victim_none {f : Frame} {rest : List Frame} (hs : s.stack s.currpid = f :: rest)
    (hf : ∀ pid, f ≠ .killSent pid) : s.victim = none := by
  unfold Xinu.victim
  rw [hs]
  cases f with
  | killSent pid => exact absurd rfl (hf pid)
  | _ => rfl

theorem moves_blockMove (hI : Inv w g EMPTY s) (h : g.Moves w s l g' s') :
    g.BlockMove s l g' := by
  cases l with
  | call c => exact callMoves_blockMove hI h
  | cont =>
      rcases h with ⟨f, rest, hs, rfl⟩
      have htrack := popped_eq hI hs
      have hkeep : f.tracked = false → (∀ pid, f ≠ .killSent pid) →
          g.BlockMove s .cont (g.popped s.currpid f) := by
        intro hf hsent
        unfold View.popped
        rw [hf]
        exact .keep (victim_none hs hsent) (.refl g)
      cases f with
      | killSent pid =>
          rw [(htrack rfl).2]
          exact .killSent (htrack rfl).1 (s.victim_eq hs)
      | killSignaled pid =>
          rw [(htrack rfl).2]
          exact .killSignaled (htrack rfl).1 (victim_none hs fun _ h => by cases h)
      | rwbWriter thisid rwb =>
          rw [(htrack rfl).2]
          exact .writer (htrack rfl).1 (victim_none hs fun _ h => by cases h)
      | rwbReader thisid rwb =>
          rw [(htrack rfl).2]
          exact .reader (htrack rfl).1 (victim_none hs fun _ h => by cases h)
      | ret value => exact hkeep rfl fun _ h => by cases h
      | receive => exact hkeep rfl fun _ h => by cases h
      | recvtime => exact hkeep rfl fun _ h => by cases h
      | suspend pid => exact hkeep rfl fun _ h => by cases h
      | clkPreempt => exact hkeep rfl fun _ h => by cases h

end

end BbbXinu
