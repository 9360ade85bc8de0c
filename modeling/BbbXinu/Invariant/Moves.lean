import BbbXinu.Invariant.Boot

/-!
# Steps of the machine on views

Each step keeps the invariant and moves the view as one of the relations below
says.  A run of the machine thus projects to a run of moves.
-/

namespace BbbXinu

open LinkedLists KeyedLists

/-!
## Moves
-/

namespace View

/-- The running process joins the sleep queue for the given time. -/
def Sleeps (g : View) (pid due : Int) (g' : View) : Prop :=
  ∃ l₁ l₂, g.lists sleepq = l₁ ++ l₂ ∧
    g' = (g.setList sleepq (l₁ ++ pid :: l₂)).setDue (upd g.due pid due)

/-- A call that may put the running process to sleep. -/
def MaySleep (g : View) (blocks : Prop) (pid due : Int) (g' : View) : Prop :=
  ¬ blocks ∧ g' = g ∨ blocks ∧ g.Sleeps pid due g'

/-- A tick wakes the processes whose time has come. -/
def Ticks (w : Watch) (g g' : View) (s' : Xinu) : Prop :=
  ∃ l₁ l₂, g.lists sleepq = l₁ ++ l₂ ∧
    (w.delays → (∀ p ∈ l₁, g.due p = 1) ∧ ∀ p ∈ l₂, 1 < g.due p) ∧
    (∀ p ∈ l₁, s'.Alive p) ∧
    g' = (g.setDue fun p => g.due p - 1).setList sleepq l₂

/-- The call {lit}`c` made in state {lit}`s` moves the view. -/
def CallMoves (w : Watch) (g : View) (s : Xinu) (c : Call) (g' : View) (s' : Xinu) : Prop :=
  match c with
  | .create _ _ => g' = g ∨
      ∃ pid, ¬ g.live pid ∧ ValidPid pid ∧ g' = (g.setLive pid True).setFrames pid []
  | .kill pid => g' = g ∨ pid ≠ NULLPROC ∧
      (g' = g.pushFrame s.currpid (.killSent pid) ∨
        g' = (g.pushFrame s.currpid (.killSent pid)).unqueue sleepq (s.proctab pid).prparent)
  | .send pid _ => g' = g ∨ g' = g.unqueue sleepq pid
  | .recvtime maxwait => g.MaySleep (s.blocks c) s.currpid maxwait g'
  | .sleepms delay => g.MaySleep (s.blocks c) s.currpid (int32 delay) g'
  | .sleep delay => g.MaySleep (s.blocks c) s.currpid (int32 (uint32 (1000 * delay))) g'
  | .rwbcreate count => g' = g ∨ 0 ≤ count ∧ ValidRwb s.newrwb.1 ∧
      (g.tab s.newrwb.1).rwstate = .free ∧ g' = g.create s.newrwb.1 count
  | .rwbdelete rwb => g' = if g.Usable rwb then g.delete rwb else g
  | .rwbreset rwb count => g' = if 0 ≤ count ∧ g.Usable rwb then g.reset rwb count else g
  | .rwbTryread rwb => g' = if g.Usable rwb then g.tryread s.currpid rwb else g
  | .rwbTrywrite rwb => g' = if g.Usable rwb then g.trywrite s.currpid rwb else g
  | .signalrwb rwb => g' = if g.Usable rwb then g.signalrwb s.currpid s.currpid rwb else g
  | .clkhandler => g.Ticks w g' s'
  | .resume _ | .suspend _ | .chprio _ _ | .yield | .semcreate _ | .wait _ | .signal _
  | .signaln _ _ | .semreset _ _ | .semdelete _ | .receive | .recvclr | .setScheduler _ =>
      g.Still g'

/-- The running process takes its top frame. -/
def popped (g : View) (pid : Int) (f : Frame) : View :=
  if f.tracked then g.setFrames pid (g.frames pid).tail else g

/-- Running the frame {lit}`f` in state {lit}`s` moves the view. -/
def frameMove (g : View) (s : Xinu) : Frame → View
  | .killSent pid =>
      g.killState s.currpid pid (s.proctab pid).prstate (s.proctab pid).prsem
  | .killSignaled pid => g.killSignaled pid
  | .rwbWriter _ rwb => g.signalWriter rwb
  | .rwbReader thisid rwb => g.signalReader s.currpid thisid rwb
  | .ret _ | .receive | .recvtime | .suspend _ | .clkPreempt => g

def Moves (w : Watch) (g : View) (s : Xinu) (l : Label) (g' : View) (s' : Xinu) : Prop :=
  match l with
  | .call c => g.CallMoves w s c g' s'
  | .cont => ∃ f rest, s.stack s.currpid = f :: rest ∧
      g' = (g.popped s.currpid f).frameMove s f

end View

/-!
## Frames
-/

/-- What a frame above others in the stack of a process relies on. -/
def Frame.Sound (limbo : Int → Prop) (pid : Int) (rest : List Frame) : Frame → Prop
  | .killSent victim => victim ≠ NULLPROC
  | .killSignaled victim => limbo victim ∧ Frame.killSignaled victim ∉ rest
  | .rwbWriter thisid rwb | .rwbReader thisid rwb =>
      ValidRwb rwb ∧ (thisid = pid ∨ Frame.killSignaled thisid ∈ rest)
  | .ret _ | .receive | .recvtime | .suspend _ | .clkPreempt => True

def SoundFrames (limbo : Int → Prop) (pid : Int) : List Frame → Prop
  | [] => True
  | f :: rest => f.Sound limbo pid rest ∧ SoundFrames limbo pid rest

/-- The frames of all processes, with at most one to free each victim. -/
structure Stacks (limbo : Int → Prop) (frames : Int → List Frame) : Prop where
  sound : ∀ p, SoundFrames limbo p (frames p)
  once : ∀ p p' v, Frame.killSignaled v ∈ frames p → Frame.killSignaled v ∈ frames p' →
    p = p'

section Stacks

variable {limbo limbo' : Int → Prop} {frames : Int → List Frame} {pid victim : Int}
  {f : Frame} {fs rest : List Frame}

theorem SoundFrames.of_mem (h : SoundFrames limbo pid fs) :
    Frame.killSignaled victim ∈ fs → limbo victim := by
  induction fs with
  | nil => exact fun hm => absurd hm List.not_mem_nil
  | cons f fs ih =>
      intro hm
      rcases List.mem_cons.mp hm with he | hm
      · have h1 := h.1
        rw [← he] at h1
        exact h1.1
      · exact ih h.2 hm

theorem SoundFrames.mono (h : SoundFrames limbo pid fs)
    (hl : ∀ v, Frame.killSignaled v ∈ fs → limbo v → limbo' v) :
    SoundFrames limbo' pid fs := by
  induction fs with
  | nil => trivial
  | cons f fs ih =>
      refine ⟨?_, ih h.2 fun v hv => hl v (List.mem_cons_of_mem f hv)⟩
      have h1 := h.1
      cases f with
      | killSignaled v => exact ⟨hl v List.mem_cons_self h1.1, h1.2⟩
      | _ => exact h1

theorem Stacks.mono (h : Stacks limbo frames)
    (hl : ∀ p v, Frame.killSignaled v ∈ frames p → limbo v → limbo' v) :
    Stacks limbo' frames where
  sound := fun p => (h.sound p).mono (hl p)
  once := h.once

theorem Stacks.clear (h : Stacks limbo frames) (pid : Int) :
    Stacks limbo (upd frames pid []) where
  sound := fun p => by
    rw [upd_apply]
    split
    · trivial
    · exact h.sound p
  once := fun p p' v hp hp' => by
    rw [upd_apply] at hp hp'
    split at hp
    · cases hp
    · split at hp'
      · cases hp'
      · exact h.once p p' v hp hp'

theorem Stacks.pop (h : Stacks limbo frames) (hf : frames pid = f :: rest) :
    Stacks limbo (upd frames pid rest) where
  sound := fun p => by
    rw [upd_apply]
    split
    · rename_i hp
      have h1 := h.sound p
      rw [hp, hf] at h1
      exact hp ▸ h1.2
    · exact h.sound p
  once := fun p p' v hp hp' => by
    have hsub : ∀ q, Frame.killSignaled v ∈ upd frames pid rest q →
        Frame.killSignaled v ∈ frames q := by
      intro q hq
      rw [upd_apply] at hq
      split at hq
      · rename_i he
        rw [he, hf]
        exact List.mem_cons_of_mem f hq
      · exact hq
    exact h.once p p' v (hsub p hp) (hsub p' hp')

theorem Stacks.push (h : Stacks limbo frames) (hf : f.Sound limbo pid (frames pid))
    (hnew : ∀ v, f = .killSignaled v → ∀ p, Frame.killSignaled v ∉ frames p) :
    Stacks limbo (upd frames pid (f :: frames pid)) where
  sound := fun p => by
    rw [upd_apply]
    split
    · rename_i hp
      rw [hp]
      exact ⟨hf, h.sound pid⟩
    · exact h.sound p
  once := fun p p' v hp hp' => by
    have hcase : ∀ q, Frame.killSignaled v ∈ upd frames pid (f :: frames pid) q →
        Frame.killSignaled v ∈ frames q ∨ q = pid ∧ f = .killSignaled v := by
      intro q hq
      rw [upd_apply] at hq
      split at hq
      · rename_i he
        rcases List.mem_cons.mp hq with hq | hq
        · exact Or.inr ⟨he, hq.symm⟩
        · exact Or.inl (he ▸ hq)
      · exact Or.inl hq
    rcases hcase p hp with h1 | ⟨h1, h2⟩
    · rcases hcase p' hp' with h3 | ⟨_, h4⟩
      · exact h.once p p' v h1 h3
      · exact absurd h1 (hnew v h4 p)
    · rcases hcase p' hp' with h3 | ⟨h3, _⟩
      · exact absurd h3 (hnew v h2 p')
      · rw [h1, h3]

/-- A victim that is freed had one frame only. -/
theorem Stacks.popVictim (h : Stacks limbo frames)
    (hf : frames pid = .killSignaled victim :: rest) :
    Stacks (fun p => p ≠ victim ∧ limbo p) (upd frames pid rest) := by
  apply (h.pop hf).mono
  intro p v hv hlimbo
  refine ⟨?_, hlimbo⟩
  rintro rfl
  have htop : Frame.killSignaled v ∈ frames pid := by
    rw [hf]
    exact List.mem_cons_self
  rw [upd_apply] at hv
  split at hv
  · have h1 := (h.sound pid)
    rw [hf] at h1
    exact h1.1.2 hv
  · rename_i hne
    exact hne (h.once p pid v hv htop)

end Stacks

/-!
## What a blocker call leaves alone
-/

/-- The views agree but for one blocker, its queue, flags, frames and dropped
processes. -/
structure View.Local (rwb : Int) (g g' : View) : Prop where
  live : g'.live = g.live
  limbo : g'.limbo = g.limbo
  due : g'.due = g.due
  defers : g'.defers = g.defers
  lists : ∀ q, q ≠ rwq rwb → g'.lists q = g.lists q
  tab : ∀ b, b ≠ rwb → g'.tab b = g.tab b

namespace View

variable {g g' g'' : View} {rwb : Int}

theorem Local.refl (g : View) : Local rwb g g :=
  ⟨rfl, rfl, rfl, rfl, fun _ _ => rfl, fun _ _ => rfl⟩

theorem Local.trans (h : Local rwb g g') (h' : Local rwb g' g'') : Local rwb g g'' where
  live := h'.live.trans h.live
  limbo := h'.limbo.trans h.limbo
  due := h'.due.trans h.due
  defers := h'.defers.trans h.defers
  lists := fun q hq => (h'.lists q hq).trans (h.lists q hq)
  tab := fun b hb => (h'.tab b hb).trans (h.tab b hb)

theorem local_setFlag (g : View) (rwb pid flag : Int) : Local rwb g (g.setFlag pid flag) :=
  ⟨rfl, rfl, rfl, rfl, fun _ _ => rfl, fun _ _ => rfl⟩

theorem local_setRwb (g : View) (rwb : Int) (f : Rwbentry → Rwbentry) :
    Local rwb g (g.setRwb rwb f) :=
  ⟨rfl, rfl, rfl, rfl, fun _ _ => rfl, fun _ hb => upd_of_ne hb⟩

theorem local_setList (g : View) (rwb : Int) (l : List Int) :
    Local rwb g (g.setList (rwq rwb) l) :=
  ⟨rfl, rfl, rfl, rfl, fun _ hq => upd_of_ne hq, fun _ _ => rfl⟩

theorem local_pushFrame (g : View) (rwb pid : Int) (f : Frame) :
    Local rwb g (g.pushFrame pid f) :=
  ⟨rfl, rfl, rfl, rfl, fun _ _ => rfl, fun _ _ => rfl⟩

theorem local_setLost (g : View) (rwb : Int) (lost : Int → Prop) :
    Local rwb g (g.setLost lost) :=
  ⟨rfl, rfl, rfl, rfl, fun _ _ => rfl, fun _ _ => rfl⟩

theorem local_block (g : View) (pid rwb : Int) : Local rwb g (g.block pid rwb) :=
  (local_setRwb g rwb _).trans (local_setList _ rwb _)

theorem local_trywrite (g : View) (pid rwb : Int) : Local rwb g (g.trywrite pid rwb) := by
  apply (local_setFlag g rwb pid (-1)).trans
  unfold View.trywrite
  dsimp only
  split
  · exact local_block _ pid rwb
  · exact local_setRwb _ rwb _

theorem local_tryread (g : View) (pid rwb : Int) : Local rwb g (g.tryread pid rwb) := by
  apply (local_setFlag g rwb pid 1).trans
  unfold View.tryread
  dsimp only
  split
  · exact local_block _ pid rwb
  · exact local_setRwb _ rwb _

theorem local_release (g : View) (pid rwb : Int) (after : Frame) :
    Local rwb g (g.release pid rwb after) :=
  ((local_setRwb g rwb _).trans (local_pushFrame _ rwb pid after)).trans
    (local_setList _ rwb _)

theorem local_create (g : View) (rwb count : Int) : Local rwb g (g.create rwb count) :=
  (local_setRwb g rwb _).trans (local_setRwb _ rwb _)

theorem local_deleteOne (g : View) (rwb : Int) : Local rwb g (g.deleteOne rwb) := by
  unfold View.deleteOne
  dsimp only
  split
  · exact local_setRwb g rwb _
  · exact ((local_setRwb g rwb _).trans (local_setList _ rwb _)).trans
      (local_setFlag _ rwb _ 0)

theorem local_deleteLoop (n : Nat) (g : View) : Local rwb g (deleteLoop rwb n g) := by
  induction n generalizing g with
  | zero => exact .refl g
  | succ n ih => exact (local_deleteOne g rwb).trans (ih _)

theorem local_delete (g : View) (rwb : Int) : Local rwb g (g.delete rwb) := by
  unfold View.delete
  dsimp only
  refine Local.trans ?_ (local_setRwb _ rwb _)
  refine Local.trans ?_ (local_setRwb _ rwb _)
  exact (local_setRwb g rwb _).trans (local_deleteLoop _ _)

theorem local_resetLoop (l : List Int) (g : View) : Local rwb g (resetLoop rwb l g) := by
  induction l generalizing g with
  | nil => exact .refl g
  | cons pid l ih =>
      exact (((local_setList g rwb l).trans (local_setLost _ rwb _)).trans
        (local_setRwb _ rwb _)).trans (ih _)

theorem local_reset (g : View) (rwb count : Int) : Local rwb g (g.reset rwb count) :=
  (local_resetLoop _ g).trans (local_setRwb _ rwb _)

/-!
Deleting and resetting leave the frames alone as well.
-/

theorem deleteOne_frames (g : View) (rwb : Int) : (g.deleteOne rwb).frames = g.frames := by
  unfold View.deleteOne
  dsimp only
  split <;> rfl

theorem deleteLoop_frames (n : Nat) (g : View) :
    (deleteLoop rwb n g).frames = g.frames := by
  induction n generalizing g with
  | zero => rfl
  | succ n ih => exact (ih _).trans (g.deleteOne_frames rwb)

theorem delete_frames (g : View) (rwb : Int) : (g.delete rwb).frames = g.frames :=
  deleteLoop_frames _ _

theorem resetLoop_frames (l : List Int) (g : View) :
    (resetLoop rwb l g).frames = g.frames := by
  induction l generalizing g with
  | nil => rfl
  | cons pid l ih => exact (ih _).trans rfl

theorem reset_frames (g : View) (rwb count : Int) : (g.reset rwb count).frames = g.frames :=
  resetLoop_frames _ g

theorem tryread_frames (g : View) (pid rwb : Int) : (g.tryread pid rwb).frames = g.frames := by
  unfold View.tryread
  dsimp only
  split <;> rfl

theorem trywrite_frames (g : View) (pid rwb : Int) :
    (g.trywrite pid rwb).frames = g.frames := by
  unfold View.trywrite
  dsimp only
  split <;> rfl

end View

/-!
## How a signal moves the view
-/

section Signals

variable {g g' : View} {pid thisid rwb : Int} {n : Int} {l : List Int}

/-- A signal ends at once or releases the first process of the queue: a reader,
or a writer that finds the blocker free. -/
inductive Releases (g : View) (pid thisid rwb : Int) : View → Prop where
  | none (hstop : ∀ n l, g.lists (rwq rwb) = n :: l →
      (g.flags n = -1 → (g.tab rwb).rwcount ≠ 0) ∧ g.flags n ≠ 1) :
      Releases g pid thisid rwb g
  | writer {n : Int} {l : List Int} (hqueue : g.lists (rwq rwb) = n :: l)
      (hflag : g.flags n = -1) (hcount : (g.tab rwb).rwcount = 0) :
      Releases g pid thisid rwb (g.release pid rwb (.rwbWriter thisid rwb))
  | reader {n : Int} {l : List Int} (hqueue : g.lists (rwq rwb) = n :: l)
      (hflag : g.flags n = 1) :
      Releases g pid thisid rwb (g.release pid rwb (.rwbReader thisid rwb))

theorem signalNext_releases (g : View) (pid thisid rwb : Int) :
    Releases g pid thisid rwb (g.signalNext pid thisid rwb) := by
  unfold View.signalNext
  cases hL : g.lists (rwq rwb) with
  | nil =>
      apply Releases.none
      intro n l h
      rw [hL] at h
      cases h
  | cons n l =>
      dsimp only
      split
      · rename_i hflag
        split
        · rename_i hcount
          exact Releases.writer hL hflag hcount
        · rename_i hcount
          apply Releases.none
          intro n' l' h
          rw [hL] at h
          cases h
          exact ⟨fun _ => hcount, by rw [hflag]; decide⟩
      · rename_i hwriter
        unfold View.signalReaders
        split
        · rename_i hflag
          exact Releases.reader hL hflag
        · rename_i hreader
          apply Releases.none
          intro n' l' h
          rw [hL] at h
          cases h
          exact ⟨fun h => absurd h hwriter, hreader⟩

/-- The loop of {lit}`_signalrwb` releases readers only. -/
theorem signalReaders_releases (g : View) (pid thisid rwb : Int) :
    (∃ n l, g.lists (rwq rwb) = n :: l ∧ g.flags n = 1 ∧
        g.signalReaders pid thisid rwb (g.nextFlag rwb) =
          g.release pid rwb (.rwbReader thisid rwb)) ∨
      (∀ n l, g.lists (rwq rwb) = n :: l → g.flags n ≠ 1) ∧
        g.signalReaders pid thisid rwb (g.nextFlag rwb) = g := by
  unfold View.signalReaders View.nextFlag
  cases hL : g.lists (rwq rwb) with
  | nil =>
      right
      refine ⟨?_, if_neg (by exact fun h => by cases h)⟩
      intro n l h
      cases h
  | cons n l =>
      dsimp only
      split
      · rename_i hflag
        exact Or.inl ⟨n, l, rfl, hflag, rfl⟩
      · rename_i hflag
        right
        refine ⟨?_, rfl⟩
        intro n' l' h
        cases h
        exact hflag

theorem Releases.local (h : Releases g pid thisid rwb g') : View.Local rwb g g' := by
  cases h with
  | none => exact .refl g
  | writer => exact View.local_release g pid rwb _
  | reader => exact View.local_release g pid rwb _

theorem Releases.stacked (h : Releases g pid thisid rwb g') (hs : Stacks g.limbo g.frames)
    (hb : ValidRwb rwb) (hthis : thisid = pid ∨ Frame.killSignaled thisid ∈ g.frames pid) :
    Stacks g'.limbo g'.frames := by
  cases h with
  | none => exact hs
  | writer => exact hs.push ⟨hb, hthis⟩ fun v h => by cases h
  | reader => exact hs.push ⟨hb, hthis⟩ fun v h => by cases h

theorem signalReaders_local (g : View) (pid thisid rwb flag : Int) :
    View.Local rwb g (g.signalReaders pid thisid rwb flag) := by
  unfold View.signalReaders
  split
  · exact View.local_release g pid rwb _
  · exact .refl g

theorem signalReaders_stacks (g : View) (pid thisid rwb flag : Int)
    (hs : Stacks g.limbo g.frames) (hb : ValidRwb rwb)
    (hthis : thisid = pid ∨ Frame.killSignaled thisid ∈ g.frames pid) :
    Stacks (g.signalReaders pid thisid rwb flag).limbo
      (g.signalReaders pid thisid rwb flag).frames := by
  unfold View.signalReaders
  split
  · exact hs.push ⟨hb, hthis⟩ fun v h => by cases h
  · exact hs

theorem signalReader_local (g : View) (pid thisid rwb : Int) :
    View.Local rwb g (g.signalReader pid thisid rwb) :=
  (View.local_setRwb g rwb _).trans (signalReaders_local _ pid thisid rwb _)

theorem signalReader_stacks (g : View) (pid thisid rwb : Int) (hs : Stacks g.limbo g.frames)
    (hb : ValidRwb rwb) (hthis : thisid = pid ∨ Frame.killSignaled thisid ∈ g.frames pid) :
    Stacks (g.signalReader pid thisid rwb).limbo (g.signalReader pid thisid rwb).frames :=
  signalReaders_stacks (g.setRwb rwb fun e => { e with rwcount := e.rwcount + 1 }) pid thisid
    rwb _ hs hb hthis

theorem signalrwb_local (g : View) (pid thisid rwb : Int) :
    View.Local rwb g (g.signalrwb pid thisid rwb) :=
  ((View.local_setFlag g rwb thisid 0).trans (View.local_setRwb _ rwb _)).trans
    (signalNext_releases _ pid thisid rwb).local

theorem signalrwb_stacks (g : View) (pid thisid rwb : Int) (hs : Stacks g.limbo g.frames)
    (hb : ValidRwb rwb) (hthis : thisid = pid ∨ Frame.killSignaled thisid ∈ g.frames pid) :
    Stacks (g.signalrwb pid thisid rwb).limbo (g.signalrwb pid thisid rwb).frames :=
  Releases.stacked (signalNext_releases _ pid thisid rwb) hs hb hthis

end Signals

/-!
## The invariant between steps
-/

/-- The invariant while no call is in the middle of a deferral. -/
structure Good (w : Watch) (g : View) (s : Xinu) : Prop where
  ok : Ok w g s
  defers : g.defers = 0
  stacked : Stacks g.limbo g.frames
  asleep : w.delays → ∀ p ∈ g.lists sleepq, 0 < g.due p ∧ g.due p < 2147483648

/-- The delay for which a call puts the running process to sleep. -/
def Xinu.sleepDelay (s : Xinu) : Label → Option Int
  | .call (.recvtime maxwait) => if s.blocks (.recvtime maxwait) then some maxwait else none
  | .call (.sleepms delay) => if s.blocks (.sleepms delay) then some delay else none
  | .call (.sleep delay) =>
      if s.blocks (.sleep delay) then some (uint32 (1000 * delay)) else none
  | _ => none

/-- A time to sleep is positive as a 32-bit number. -/
def TimesFit (s : Xinu) (l : Label) : Prop :=
  ∀ d ∈ s.sleepDelay l, 0 < d ∧ d < 2147483648

instance (s : Xinu) (l : Label) : Decidable (TimesFit s l) :=
  inferInstanceAs (Decidable (∀ d ∈ s.sleepDelay l, _))

/-- What the invariant asks of a step.  The null process does not block;
{lit}`suspend` and {lit}`kill` find the process on the queue it belongs on; a
user process changes the scheduler, while the ready count covers the ready list.
The other conditions are those of the watch. -/
def Fits (w : Watch) (s : Xinu) : Label → Prop
  | .call c => (s.currpid = NULLPROC → ¬ s.blocks c) ∧
      match c with
      | .suspend pid => ((s.proctab pid).prstate = .ready → s.Linked pid) ∧
          (w.count → pid ≠ NULLPROC → (s.proctab pid).prstate ≠ .ready)
      | .chprio pid newprio => w.keys → s.KeepsOrder pid newprio
      | .sleepms _ | .sleep _ | .recvtime _ => w.delays → TimesFit s (.call c)
      | .setScheduler newval => (w.keys → newval = QTYPE_PRIORITY) ∧
          s.currpid ≠ NULLPROC ∧ (lists s.queuetab readylist).length ≤ s.readycount
      | _ => True
  | .cont =>
      match s.stack s.currpid with
      | .killSent pid :: _ => s.Linked pid ∧ (w.count → (s.proctab pid).prstate ≠ .ready)
      | _ => True

section Steps

variable {w : Watch} {g g' : View} {s s' : Xinu}

theorem Good.bounded (hG : Good w g s) : w.delays → g.Bounded :=
  fun hw p hp => (hG.asleep hw p hp).2

theorem usable_iff (hI : Inv w g EMPTY s) (rwb : Int) :
    g.Usable rwb ↔ ¬ s.isbadrwb rwb := by
  unfold View.Usable
  rw [not_isbadrwb_iff, hI.tab]

theorem sleep_ok (hO : Ok w g s) (hdef : g.defers = 0) {delay : Nat}
    (hnull : s.currpid = NULLPROC → ¬ s.blocks (.sleep delay))
    (hd : w.delays → g.Bounded ∧ TimesFit s (.call (.sleep delay))) :
    ∃ g', g.MaySleep (s.blocks (.sleep delay)) s.currpid (int32 (uint32 (1000 * delay))) g' ∧
      Ok w g' (s.sleep delay) := by
  by_cases hlong : MAXSECONDS < delay
  · have hcall : s.sleep delay = s.ret SYSERR := if_pos hlong
    rw [hcall]
    exact ⟨g, Or.inl ⟨fun h => absurd h.1 (Nat.not_le.mpr hlong), rfl⟩, hO.ret _⟩
  · have hcall : s.sleep delay = (s.push (.ret OK)).sleepms (uint32 (1000 * delay)) :=
      if_neg hlong
    rw [hcall]
    have hblocks : s.blocks (.sleep delay) ↔ uint32 (1000 * delay) ≠ 0 :=
      and_iff_right (Nat.not_lt.mp hlong)
    have hnull' : s.currpid = NULLPROC →
        ¬ (s.push (.ret OK)).blocks (.sleepms (uint32 (1000 * delay))) :=
      fun h hb => hnull h (hblocks.mpr hb)
    have hd' : w.delays → g.Bounded ∧
        ((s.push (.ret OK)).blocks (.sleepms (uint32 (1000 * delay))) →
          (uint32 (1000 * delay) : Int) < 2147483648) :=
      fun hw => ⟨(hd hw).1, fun hb => ((hd hw).2 _ (if_pos (hblocks.mpr hb))).2⟩
    rcases sleepms_ok (hO.push (f := .ret OK) rfl) hdef hnull' hd' with ⟨hz, h⟩ | ⟨hnz, h⟩
    · exact ⟨g, Or.inl ⟨fun hb => hblocks.mp hb hz, rfl⟩, h⟩
    · rcases h with ⟨l₁, l₂, happ, h⟩
      exact ⟨_, Or.inr ⟨hblocks.mpr hnz, l₁, l₂, happ, rfl⟩, h⟩

theorem Linked.not_limbo (hI : Inv w g EMPTY s) {pid : Int} (h : s.Linked pid) :
    ¬ g.limbo pid := by
  intro hlimbo
  have hmem := Linked.mem h (home_ready (hI.limbo pid hlimbo).2.2)
  exact ((hI.mem_iff _ _).mp hmem).2.2.1 hlimbo

/-- Every call moves the view and keeps the invariant. -/
theorem call_ok (hG : Good w g s) {c : Call} (hfit : Fits w s (.call c)) :
    ∃ g', g.CallMoves w s c g' (s.call c) ∧ Ok w g' (s.call c) := by
  have hO := hG.ok
  have hdef := hG.defers
  have hnull := hfit.1
  cases c with
  | create ssize priority => exact create_ok hO ssize priority
  | resume pid => exact ⟨g, .refl g, resume_ok hO pid⟩
  | suspend pid =>
      have hlimbo : ¬ g.limbo pid := fun h =>
        Linked.not_limbo hO.inv (hfit.2.1 (hO.inv.limbo pid h).2.2) h
      exact ⟨g, .refl g, suspend_ok hO hdef hlimbo hfit.2.2⟩
  | kill pid =>
      rcases kill_ok hO hG.bounded pid with ⟨g', hg', h⟩
      refine ⟨g', ?_, h⟩
      exact hg'.imp id fun h => ⟨h.2.1, h.2.2⟩
  | chprio pid newprio => exact ⟨g, .refl g, chprio_ok hO hfit.2⟩
  | yield => exact ⟨g, .refl g, yield_ok hO⟩
  | semcreate count => exact ⟨g, .refl g, semcreate_ok hO count⟩
  | wait sem => exact wait_ok hO hdef hnull
  | signal sem => exact signal_ok hO sem
  | signaln sem count => exact signaln_ok hO hdef sem count
  | semreset sem count => exact semreset_ok hO hdef sem count
  | semdelete sem => exact semdelete_ok hO hdef sem
  | send pid msg => exact send_ok hO hG.bounded pid msg
  | receive => exact ⟨g, .refl g, receive_ok hO hdef hnull⟩
  | recvtime maxwait =>
      rcases recvtime_ok hO hdef hnull (fun hw =>
          ⟨hG.bounded hw, fun hb => (hfit.2 hw _ (if_pos hb)).2⟩) with
        ⟨hb, h⟩ | ⟨hb, l₁, l₂, happ, h⟩
      · exact ⟨g, Or.inl ⟨hb, rfl⟩, h⟩
      · exact ⟨_, Or.inr ⟨hb, l₁, l₂, happ, rfl⟩, h⟩
  | recvclr => exact ⟨g, .refl g, recvclr_ok hO⟩
  | sleepms delay =>
      rcases sleepms_ok hO hdef hnull (fun hw =>
          ⟨hG.bounded hw, fun hb => (hfit.2 hw _ (if_pos hb)).2⟩) with
        ⟨hz, h⟩ | ⟨hnz, l₁, l₂, happ, h⟩
      · exact ⟨g, Or.inl ⟨fun hb => hb hz, rfl⟩, h⟩
      · exact ⟨_, Or.inr ⟨hnz, l₁, l₂, happ, rfl⟩, h⟩
  | sleep delay => exact sleep_ok hO hdef hnull fun hw => ⟨hG.bounded hw, hfit.2 hw⟩
  | rwbcreate count =>
      rcases rwbcreate_ok hO count with ⟨g', hg', h⟩
      refine ⟨g', ?_, h⟩
      rw [hO.inv.tab] at hg'
      exact hg'
  | rwbdelete rwb =>
      have h : (s.isbadrwb rwb → _) ∧ _ := rwbdelete_ok hO hdef
      have hu := usable_iff hO.inv rwb
      refine ⟨_, rfl, ?_⟩
      split
      · rename_i hb
        exact h.2 (hu.mp hb)
      · rename_i hb
        exact h.1 (not_not.mp fun hn => hb (hu.mpr hn))
  | rwbreset rwb count =>
      have h : (count < 0 ∨ s.isbadrwb rwb → _) ∧ _ := rwbreset_ok hO hdef
      have hu := usable_iff hO.inv rwb
      refine ⟨_, rfl, ?_⟩
      split
      · rename_i hb
        exact h.2 hb.1 (hu.mp hb.2)
      · rename_i hb
        apply h.1
        by_cases hcount : count < 0
        · exact Or.inl hcount
        · exact Or.inr (not_not.mp fun hn => hb ⟨Int.not_lt.mp hcount, hu.mpr hn⟩)
  | rwbTryread rwb =>
      have h := rwbTryread_ok hO hdef hnull
      have hu := usable_iff hO.inv rwb
      refine ⟨_, rfl, ?_⟩
      split
      · rename_i hb
        exact h.2 (hu.mp hb)
      · rename_i hb
        exact h.1 (not_not.mp fun hn => hb (hu.mpr hn))
  | rwbTrywrite rwb =>
      have h := rwbTrywrite_ok hO hdef hnull
      have hu := usable_iff hO.inv rwb
      refine ⟨_, rfl, ?_⟩
      split
      · rename_i hb
        exact h.2 (hu.mp hb)
      · rename_i hb
        exact h.1 (not_not.mp fun hn => hb (hu.mpr hn))
  | signalrwb rwb =>
      have hwait : (s.proctab s.currpid).prstate ≠ .wait := by
        rw [hO.curr]
        exact fun h => by cases h
      have hgood : ¬ s.isbadpid s.currpid := by
        rw [Xinu.not_isbadpid_iff, hO.curr]
        exact ⟨hO.inv.valid_curr, fun h => by cases h⟩
      have h := _signalrwb_ok rwb hO hwait
      have hu := usable_iff hO.inv rwb
      refine ⟨_, rfl, ?_⟩
      split
      · rename_i hb
        exact h.2 (hu.mp hb) hgood
      · rename_i hb
        exact h.1 (Or.inl (not_not.mp fun hn => hb (hu.mpr hn)))
  | setScheduler newval =>
      exact ⟨g, .refl g, setScheduler_ok hO hfit.2.1 hfit.2.2.1 hfit.2.2.2⟩
  | clkhandler =>
      rcases clkhandler_ok hO hdef hG.asleep with ⟨l₁, l₂, happ, hdue, halive, h⟩
      exact ⟨_, ⟨l₁, l₂, happ, hdue, halive, rfl⟩, h⟩

/-- The top frame of the running process runs. -/
theorem frame_ok (hG : Good w g s) {f : Frame} {rest : List Frame}
    (hs : s.stack s.currpid = f :: rest) (hfit : Fits w s .cont) :
    Ok w ((g.popped s.currpid f).frameMove s f) (s.pop.frame f) := by
  have hO : Ok w (g.popped s.currpid f) s.pop := hG.ok.pop hs
  have hframes := hG.ok.inv.frames s.currpid
  have hsound := hG.stacked.sound s.currpid
  have hthis : ∀ thisid rwb rest', g.frames s.currpid = f :: rest' →
      (f = .rwbWriter thisid rwb ∨ f = .rwbReader thisid rwb) →
      ValidRwb rwb ∧ (s.pop.proctab thisid).prstate ≠ .wait := by
    intro thisid rwb rest' hg hf
    rw [hg] at hsound
    have h1 : ValidRwb rwb ∧ (thisid = s.currpid ∨ Frame.killSignaled thisid ∈ rest') := by
      rcases hf with rfl | rfl
      · exact hsound.1
      · exact hsound.1
    refine ⟨h1.1, ?_⟩
    rcases h1.2 with h2 | h2
    · show (s.proctab thisid).prstate ≠ .wait
      rw [h2, hG.ok.curr]
      exact fun h => by cases h
    · show (s.proctab thisid).prstate ≠ .wait
      rw [(hG.ok.inv.limbo thisid (hsound.2.of_mem h2)).2.2]
      exact fun h => by cases h
  rw [hs] at hframes
  cases f with
  | ret value => exact hO.ret value
  | receive => exact receiveEnd_ok hO
  | recvtime => exact recvtimeEnd_ok hO
  | suspend pid => exact hO.ret _
  | clkPreempt => exact clkPreempt_ok hO
  | killSent pid =>
      have hg : g.frames s.currpid = .killSent pid :: rest.filter Frame.tracked :=
        hframes.symm
      rw [hg] at hsound
      unfold Fits at hfit
      rw [hs] at hfit
      exact killSent_ok hO hG.defers hsound.1 hfit.1 hfit.2 hG.bounded
  | killSignaled pid =>
      have hg : g.frames s.currpid = .killSignaled pid :: rest.filter Frame.tracked :=
        hframes.symm
      rw [hg] at hsound
      exact killSignaled_ok hO hsound.1.1
  | rwbWriter thisid rwb =>
      have h := hthis thisid rwb _ hframes.symm (Or.inl rfl)
      exact signalrwbWriter_ok hO h.2
  | rwbReader thisid rwb =>
      have h := hthis thisid rwb _ hframes.symm (Or.inr rfl)
      exact signalrwbReader_ok hO h.1 h.2

end Steps

end BbbXinu
