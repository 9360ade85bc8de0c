import BbbXinu.Invariant.Moves

/-!
# The invariant along a run

Every step that fits the watch keeps the whole invariant.  What a step does to
the sleep queue comes first: it is a tick, it puts the running process to sleep,
or it takes at most one process off.
-/

namespace BbbXinu

open LinkedLists KeyedLists

/-!
## The sleep queue
-/

/-- A step may take this process off the sleep queue before its time: the
receiver of a message, or the victim of {lit}`kill`. -/
def Xinu.takesOff (s : Xinu) (l : Label) (p : Int) : Prop :=
  match l with
  | .call (.send pid _) => p = pid
  | .call (.kill pid) => p = (s.proctab pid).prparent
  | .cont => (s.stack s.currpid).head? = some (.killSent p)
  | _ => False

/-- No sleeper is added or changed, and only {lit}`taken` ones may go. -/
structure View.Sleepers (taken : Int → Prop) (g g' : View) : Prop where
  sub : ∀ p ∈ g'.lists sleepq, p ∈ g.lists sleepq
  kept : ∀ p ∈ g.lists sleepq, ¬ taken p → p ∈ g'.lists sleepq
  due : g'.due = g.due

/-- What a step does to the sleep queue. -/
inductive View.SleepMove (w : Watch) (g : View) (s : Xinu) (l : Label) (g' : View)
    (s' : Xinu) : Prop where
  | tick (hl : l = .call .clkhandler) (h : g.Ticks w g' s')
  | sleep {d due : Int} (hl : s.sleepDelay l = some d) (hd : w.delays → due = d ∧ 0 < d ∧
      d < 2147483648) (h : g.Sleeps s.currpid due g')
  | keep (hl : l ≠ .call .clkhandler) (hd : s.sleepDelay l = none)
      (h : g.Sleepers (s.takesOff l) g')

section

variable {w : Watch} {g g' : View} {s s' : Xinu} {taken : Int → Prop} {l : Label}

theorem View.Sleepers.of_eq (h : g'.lists sleepq = g.lists sleepq) (hd : g'.due = g.due) :
    g.Sleepers taken g' where
  sub := by
    rw [h]
    exact fun _ => id
  kept := by
    rw [h]
    exact fun _ hp _ => hp
  due := hd

theorem View.Sleepers.of_unqueue {pid : Int} (h : g'.lists sleepq = (g.lists sleepq).erase pid)
    (hd : g'.due = g.due) (htaken : taken pid) : g.Sleepers taken g' where
  sub := fun p hp => List.mem_of_mem_erase (h ▸ hp)
  kept := fun p hp hn => by
    rw [h]
    have hne : p ≠ pid := fun he => hn (he ▸ htaken)
    exact (List.mem_erase_of_ne hne).mpr hp
  due := hd

theorem View.Sleepers.of_local {rwb : Int} (h : View.Local rwb g g') (hb : ValidRwb rwb) :
    g.Sleepers taken g' :=
  .of_eq (h.lists sleepq (rwq_ne_sleepq hb).symm) h.due

theorem View.Sleepers.of_still (h : g.Still g') : g.Sleepers taken g' :=
  .of_eq (h.lists sleepq fun _ hs he => semq_ne_sleepq hs he.symm) h.due

theorem View.Sleepers.refl (g : View) : g.Sleepers taken g := .of_eq rfl rfl

/-- A blocker call on a usable blocker, or no effect. -/
theorem View.Sleepers.of_call {rwb : Int} {F : View} {P : Prop} [Decidable P]
    (hF : View.Local rwb g F) (hP : P → ValidRwb rwb) (h : g' = if P then F else g) :
    g.Sleepers taken g' := by
  rw [h]
  split
  · rename_i hp
    exact .of_local hF (hP hp)
  · exact .refl g

theorem View.MaySleep.move {blocks : Prop} [Decidable blocks] {d due : Int}
    (h : g.MaySleep blocks s.currpid due g') (hl : l ≠ .call .clkhandler)
    (hsleep : s.sleepDelay l = if blocks then some d else none)
    (hd : w.delays → blocks → due = d ∧ 0 < d ∧ d < 2147483648) :
    g.SleepMove w s l g' s' := by
  rcases h with ⟨hb, rfl⟩ | ⟨hb, h⟩
  · rw [if_neg hb] at hsleep
    exact .keep hl hsleep (.refl _)
  · rw [if_pos hb] at hsleep
    exact .sleep hsleep (fun hw => hd hw hb) h

theorem callMoves_sleepMove {c : Call} (hfit : Fits w s (.call c))
    (h : g.CallMoves w s c g' s') : g.SleepMove w s (.call c) g' s' := by
  cases c with
  | create ssize priority =>
      apply View.SleepMove.keep (by exact fun h => by cases h) rfl
      rcases h with rfl | ⟨pid, _, _, rfl⟩
      · exact .refl _
      · exact .of_eq rfl rfl
  | kill pid =>
      apply View.SleepMove.keep (by exact fun h => by cases h) rfl
      rcases h with rfl | ⟨_, rfl | rfl⟩
      · exact .refl _
      · exact .of_eq rfl rfl
      · exact .of_unqueue (View.unqueue_at _ sleepq _) rfl rfl
  | send pid msg =>
      apply View.SleepMove.keep (by exact fun h => by cases h) rfl
      rcases h with rfl | rfl
      · exact .refl _
      · exact .of_unqueue (View.unqueue_at _ sleepq _) rfl rfl
  | recvtime maxwait =>
      apply View.MaySleep.move h (by exact fun h => by cases h) rfl
      intro hw hb
      exact ⟨rfl, hfit.2 hw _ (if_pos hb)⟩
  | sleepms delay =>
      apply View.MaySleep.move h (by exact fun h => by cases h) rfl
      intro hw hb
      have h1 := hfit.2 hw _ (if_pos hb)
      exact ⟨int32_eq (by omega) h1.2, h1⟩
  | sleep delay =>
      apply View.MaySleep.move h (by exact fun h => by cases h) rfl
      intro hw hb
      have h1 := hfit.2 hw _ (if_pos hb)
      exact ⟨int32_eq (by omega) h1.2, h1⟩
  | rwbcreate count =>
      apply View.SleepMove.keep (by exact fun h => by cases h) rfl
      rcases h with rfl | ⟨_, hb, _, rfl⟩
      · exact .refl _
      · exact .of_local (View.local_create g _ count) hb
  | rwbdelete rwb =>
      apply View.SleepMove.keep (by exact fun h => by cases h) rfl
      exact .of_call (View.local_delete g rwb) (fun hu => hu.1) h
  | rwbreset rwb count =>
      apply View.SleepMove.keep (by exact fun h => by cases h) rfl
      exact .of_call (View.local_reset g rwb count) (fun hu => hu.2.1) h
  | rwbTryread rwb =>
      apply View.SleepMove.keep (by exact fun h => by cases h) rfl
      exact .of_call (View.local_tryread g s.currpid rwb) (fun hu => hu.1) h
  | rwbTrywrite rwb =>
      apply View.SleepMove.keep (by exact fun h => by cases h) rfl
      exact .of_call (View.local_trywrite g s.currpid rwb) (fun hu => hu.1) h
  | signalrwb rwb =>
      apply View.SleepMove.keep (by exact fun h => by cases h) rfl
      exact .of_call (signalrwb_local g s.currpid s.currpid rwb) (fun hu => hu.1) h
  | clkhandler => exact .tick rfl h
  | resume pid => exact .keep (by exact fun h => by cases h) rfl (.of_still h)
  | suspend pid => exact .keep (by exact fun h => by cases h) rfl (.of_still h)
  | chprio pid newprio => exact .keep (by exact fun h => by cases h) rfl (.of_still h)
  | yield => exact .keep (by exact fun h => by cases h) rfl (.of_still h)
  | semcreate count => exact .keep (by exact fun h => by cases h) rfl (.of_still h)
  | wait sem => exact .keep (by exact fun h => by cases h) rfl (.of_still h)
  | signal sem => exact .keep (by exact fun h => by cases h) rfl (.of_still h)
  | signaln sem count => exact .keep (by exact fun h => by cases h) rfl (.of_still h)
  | semreset sem count => exact .keep (by exact fun h => by cases h) rfl (.of_still h)
  | semdelete sem => exact .keep (by exact fun h => by cases h) rfl (.of_still h)
  | receive => exact .keep (by exact fun h => by cases h) rfl (.of_still h)
  | recvclr => exact .keep (by exact fun h => by cases h) rfl (.of_still h)
  | setScheduler newval => exact .keep (by exact fun h => by cases h) rfl (.of_still h)

/-- {lit}`kill` takes its victim off the queue it is on. -/
theorem killState_sleepers {pid : Int} (hwait : (s.proctab pid).prstate = .wait →
      WaitsOn (s.proctab pid).prsem) (cur : Int) (htaken : taken pid) :
    g.Sleepers taken
      (g.killState cur pid (s.proctab pid).prstate (s.proctab pid).prsem) := by
  unfold View.killState
  cases hstate : (s.proctab pid).prstate with
  | sleep => exact .of_unqueue (View.unqueue_at g sleepq pid) rfl htaken
  | rectim => exact .of_unqueue (View.unqueue_at g sleepq pid) rfl htaken
  | ready =>
      dsimp only
      unfold View.killReady
      split
      · dsimp only
        split
        · rename_i hu
          have h := signalrwb_local ((g.setLimbo fun p => p = pid ∨ g.limbo p).pushFrame cur
            (.killSignaled pid)) cur pid (-1 * ((s.proctab pid).prsem + 2))
          exact .of_eq (h.lists sleepq (rwq_ne_sleepq hu.1).symm) h.due
        · exact .of_eq rfl rfl
      · exact .of_eq rfl rfl
  | wait =>
      dsimp only
      rcases hwait hstate with hsem | ⟨hprsem, hb⟩
      · have hpos : ¬ (s.proctab pid).prsem < -1 := by
          simp only [isbadsem, not_or, Int.not_lt] at hsem
          omega
        rw [if_neg hpos]
        exact .of_eq (upd_of_ne (semq_ne_sleepq hsem).symm) rfl
      · rw [if_pos hprsem]
        exact .of_eq (upd_of_ne (rwq_ne_sleepq hb).symm) rfl
  | free => exact .of_eq rfl rfl
  | curr => exact .of_eq rfl rfl
  | recv => exact .of_eq rfl rfl
  | susp => exact .of_eq rfl rfl

theorem popped_sleepers (g : View) (pid : Int) (f : Frame) :
    (g.popped pid f).lists = g.lists ∧ (g.popped pid f).due = g.due := by
  unfold View.popped
  split
  · exact ⟨rfl, rfl⟩
  · exact ⟨rfl, rfl⟩

/-- A frame of {lit}`_signalrwb` names a blocker. -/
theorem validRwb_of_frame (hI : Inv w g EMPTY s) (hstacks : Stacks g.limbo g.frames)
    {rest : List Frame} {thisid rwb : Int}
    (hs : s.stack s.currpid = .rwbReader thisid rwb :: rest) : ValidRwb rwb := by
  have h1 := hI.frames s.currpid
  rw [hs] at h1
  have h2 := hstacks.sound s.currpid
  rw [← h1] at h2
  exact h2.1.1

theorem frameMove_sleepers (hI : Inv w g EMPTY s) {f : Frame} {rest : List Frame}
    (hs : s.stack s.currpid = f :: rest) (hstacks : Stacks g.limbo g.frames) :
    g.Sleepers (s.takesOff .cont) ((g.popped s.currpid f).frameMove s f) := by
  have hp := popped_sleepers g s.currpid f
  have hsame : ∀ g' : View, g'.lists sleepq = (g.popped s.currpid f).lists sleepq →
      g'.due = (g.popped s.currpid f).due → g.Sleepers (s.takesOff .cont) g' := by
    intro g' h1 h2
    exact .of_eq (h1.trans (by rw [hp.1])) (h2.trans hp.2)
  have hvalid : ∀ thisid rwb, f = .rwbReader thisid rwb → ValidRwb rwb := by
    rintro thisid rwb rfl
    exact validRwb_of_frame hI hstacks hs
  cases f with
  | killSent pid =>
      have htaken : s.takesOff .cont pid := by
        unfold Xinu.takesOff
        rw [hs]
        rfl
      have h := killState_sleepers (g := g.popped s.currpid (.killSent pid))
        (hI.waits_on pid) s.currpid htaken
      have hsub := h.sub
      have hkept := h.kept
      rw [hp.1] at hsub hkept
      exact ⟨hsub, hkept, h.due.trans hp.2⟩
  | killSignaled pid => exact hsame _ rfl rfl
  | rwbWriter thisid rwb => exact hsame _ rfl rfl
  | rwbReader thisid rwb =>
      have h := signalReader_local (g.popped s.currpid (.rwbReader thisid rwb)) s.currpid
        thisid rwb
      exact hsame _ (h.lists sleepq (rwq_ne_sleepq (hvalid thisid rwb rfl)).symm) h.due
  | ret value => exact hsame _ rfl rfl
  | receive => exact hsame _ rfl rfl
  | recvtime => exact hsame _ rfl rfl
  | suspend pid => exact hsame _ rfl rfl
  | clkPreempt => exact hsame _ rfl rfl

theorem moves_sleepMove (hG : Good w g s) (hfit : Fits w s l) (h : g.Moves w s l g' s') :
    g.SleepMove w s l g' s' := by
  cases l with
  | call c => exact callMoves_sleepMove hfit h
  | cont =>
      rcases h with ⟨f, rest, hs, rfl⟩
      exact .keep (by exact fun h => by cases h) rfl
        (frameMove_sleepers hG.ok.inv hs hG.stacked)

theorem View.SleepMove.asleep (h : g.SleepMove w s l g' s') (hw : w.delays)
    (hg : ∀ p ∈ g.lists sleepq, 0 < g.due p ∧ g.due p < 2147483648) :
    ∀ p ∈ g'.lists sleepq, 0 < g'.due p ∧ g'.due p < 2147483648 := by
  intro p hp
  cases h with
  | tick hl h =>
      rcases h with ⟨l₁, l₂, happ, hdue, _, rfl⟩
      have hp' : p ∈ l₂ := by
        rw [View.setList_at] at hp
        exact hp
      have h1 := (hdue hw).2 p hp'
      have h2 := hg p (by rw [happ]; exact List.mem_append_right l₁ hp')
      show 0 < g.due p - 1 ∧ g.due p - 1 < 2147483648
      omega
  | @sleep d due hl hd h =>
      rcases h with ⟨l₁, l₂, happ, rfl⟩
      have h1 := hd hw
      show 0 < upd g.due s.currpid due p ∧ upd g.due s.currpid due p < 2147483648
      rw [upd_apply]
      split
      · omega
      · rename_i hne
        have hp' : p ∈ l₁ ++ s.currpid :: l₂ := by
          have h2 : (g.setList sleepq (l₁ ++ s.currpid :: l₂)).lists sleepq =
              l₁ ++ s.currpid :: l₂ := View.setList_at g sleepq _
          rw [← h2]
          exact hp
        apply hg
        rw [happ]
        simp only [List.mem_append, List.mem_cons] at hp' ⊢
        exact hp'.imp id fun h => h.resolve_left hne
  | keep hl hd h =>
      rw [h.due]
      exact hg p (h.sub p hp)

/-!
## Frames, and the whole invariant
-/

theorem callMoves_stacks {c : Call} (hG : Good w g s) (h : g.CallMoves w s c g' s') :
    Stacks g'.limbo g'.frames := by
  have hS := hG.stacked
  have hsame : g'.limbo = g.limbo → g'.frames = g.frames → Stacks g'.limbo g'.frames := by
    intro h1 h2
    rw [h1, h2]
    exact hS
  have hstill : g.Still g' → Stacks g'.limbo g'.frames := fun h => hsame h.limbo h.frames
  have hsleep : ∀ blocks due, g.MaySleep blocks s.currpid due g' →
      Stacks g'.limbo g'.frames := by
    rintro blocks due (⟨_, rfl⟩ | ⟨_, l₁, l₂, _, rfl⟩)
    · exact hS
    · exact hS
  cases c with
  | create ssize priority =>
      rcases h with rfl | ⟨pid, _, _, rfl⟩
      · exact hS
      · exact hS.clear pid
  | kill pid =>
      rcases h with rfl | ⟨hnull, rfl | rfl⟩
      · exact hS
      · exact hS.push (f := .killSent pid) hnull fun v h => by cases h
      · exact hS.push (f := .killSent pid) hnull fun v h => by cases h
  | send pid msg =>
      rcases h with rfl | rfl
      · exact hS
      · exact hS
  | recvtime maxwait => exact hsleep _ _ h
  | sleepms delay => exact hsleep _ _ h
  | sleep delay => exact hsleep _ _ h
  | rwbcreate count =>
      rcases h with rfl | ⟨_, _, _, rfl⟩
      · exact hS
      · exact hS
  | rwbdelete rwb =>
      unfold View.CallMoves at h
      dsimp only at h
      rw [h]
      split
      · rw [(View.local_delete g rwb).limbo, View.delete_frames]
        exact hS
      · exact hS
  | rwbreset rwb count =>
      unfold View.CallMoves at h
      dsimp only at h
      rw [h]
      split
      · rw [(View.local_reset g rwb count).limbo, View.reset_frames]
        exact hS
      · exact hS
  | rwbTryread rwb =>
      unfold View.CallMoves at h
      dsimp only at h
      rw [h]
      split
      · rw [(View.local_tryread g s.currpid rwb).limbo, View.tryread_frames]
        exact hS
      · exact hS
  | rwbTrywrite rwb =>
      unfold View.CallMoves at h
      dsimp only at h
      rw [h]
      split
      · rw [(View.local_trywrite g s.currpid rwb).limbo, View.trywrite_frames]
        exact hS
      · exact hS
  | signalrwb rwb =>
      unfold View.CallMoves at h
      dsimp only at h
      rw [h]
      split
      · rename_i hu
        exact signalrwb_stacks g s.currpid s.currpid rwb hS hu.1 (Or.inl rfl)
      · exact hS
  | clkhandler =>
      rcases h with ⟨l₁, l₂, _, _, _, rfl⟩
      exact hS
  | resume pid => exact hstill h
  | suspend pid => exact hstill h
  | chprio pid newprio => exact hstill h
  | yield => exact hstill h
  | semcreate count => exact hstill h
  | wait sem => exact hstill h
  | signal sem => exact hstill h
  | signaln sem count => exact hstill h
  | semreset sem count => exact hstill h
  | semdelete sem => exact hstill h
  | receive => exact hstill h
  | recvclr => exact hstill h
  | setScheduler newval => exact hstill h

/-- A victim on the ready list is in no frame yet. -/
theorem killState_stacks {pid cur : Int} {prstate : PrState} {prsem : Int}
    (hS : Stacks g.limbo g.frames) (hfresh : prstate = .ready → ¬ g.limbo pid) :
    Stacks (g.killState cur pid prstate prsem).limbo
      (g.killState cur pid prstate prsem).frames := by
  unfold View.killState
  cases prstate with
  | ready =>
      dsimp only
      unfold View.killReady
      split
      · dsimp only
        have hfresh' := hfresh rfl
        have hS₁ : Stacks (fun p => p = pid ∨ g.limbo p) g.frames :=
          hS.mono fun _ _ _ hl => Or.inr hl
        have hS₂ := hS₁.push (f := .killSignaled pid)
          ⟨Or.inl rfl, fun hm => hfresh' ((hS.sound cur).of_mem hm)⟩
          (fun v hv p hm => by
            cases hv
            exact hfresh' ((hS.sound p).of_mem hm))
        split
        · rename_i hu
          refine signalrwb_stacks _ cur pid _ hS₂ hu.1 (Or.inr ?_)
          show Frame.killSignaled pid ∈ upd g.frames cur _ cur
          rw [upd_self]
          exact List.mem_cons_self
        · exact hS₂
      · exact hS
  | wait =>
      dsimp only
      split
      · exact hS
      · exact hS
  | _ => exact hS

theorem frameMove_stacks (hG : Good w g s) {f : Frame} {rest : List Frame}
    (hs : s.stack s.currpid = f :: rest) (hfit : Fits w s .cont) :
    Stacks ((g.popped s.currpid f).frameMove s f).limbo
      ((g.popped s.currpid f).frameMove s f).frames := by
  have hS := hG.stacked
  have hframes := hG.ok.inv.frames s.currpid
  rw [hs] at hframes
  have hpop : f.tracked = true → g.frames s.currpid = f :: rest.filter Frame.tracked := by
    intro htrack
    rw [← hframes, List.filter_cons_of_pos htrack]
  have hpopped : f.tracked = true →
      (g.popped s.currpid f).frames = upd g.frames s.currpid (rest.filter Frame.tracked) := by
    intro htrack
    unfold View.popped
    rw [if_pos htrack, hpop htrack]
    rfl
  have hlimbo : (g.popped s.currpid f).limbo = g.limbo := by
    unfold View.popped
    split
    · rfl
    · rfl
  have hS₁ : f.tracked = true →
      Stacks (g.popped s.currpid f).limbo (g.popped s.currpid f).frames := by
    intro htrack
    rw [hlimbo, hpopped htrack]
    exact hS.pop (hpop htrack)
  cases f with
  | ret value => exact hS
  | receive => exact hS
  | recvtime => exact hS
  | suspend pid => exact hS
  | clkPreempt => exact hS
  | killSent pid =>
      unfold Fits at hfit
      rw [hs] at hfit
      apply killState_stacks (hS₁ rfl)
      intro _
      rw [hlimbo]
      exact Linked.not_limbo hG.ok.inv hfit.1
  | killSignaled pid =>
      show Stacks (fun p => p ≠ pid ∧ (g.popped s.currpid (.killSignaled pid)).limbo p)
        (g.popped s.currpid (.killSignaled pid)).frames
      rw [hpopped rfl, hlimbo]
      exact hS.popVictim (hpop rfl)
  | rwbWriter thisid rwb => exact hS₁ rfl
  | rwbReader thisid rwb =>
      have hsound := hS.sound s.currpid
      rw [hpop rfl] at hsound
      apply signalReader_stacks _ s.currpid thisid rwb (hS₁ rfl) hsound.1.1
      show _ ∨ Frame.killSignaled thisid ∈
        (g.popped s.currpid (.rwbReader thisid rwb)).frames s.currpid
      rw [hpopped rfl, upd_self]
      exact hsound.1.2

theorem callMoves_defers {c : Call} (h : g.CallMoves w s c g' s') : g'.defers = g.defers := by
  have hlocal : ∀ (rwb : Int) (F : View) (P : Prop) [Decidable P], View.Local rwb g F →
      g' = (if P then F else g) → g'.defers = g.defers := by
    intro rwb F P _ hF h
    rw [h]
    split
    · exact hF.defers
    · rfl
  have hsleep : ∀ blocks due, g.MaySleep blocks s.currpid due g' → g'.defers = g.defers := by
    rintro blocks due (⟨_, rfl⟩ | ⟨_, l₁, l₂, _, rfl⟩)
    · rfl
    · rfl
  cases c with
  | create ssize priority =>
      rcases h with rfl | ⟨pid, _, _, rfl⟩
      · rfl
      · rfl
  | kill pid =>
      rcases h with rfl | ⟨_, rfl | rfl⟩
      · rfl
      · rfl
      · rfl
  | send pid msg =>
      rcases h with rfl | rfl
      · rfl
      · rfl
  | recvtime maxwait => exact hsleep _ _ h
  | sleepms delay => exact hsleep _ _ h
  | sleep delay => exact hsleep _ _ h
  | rwbcreate count =>
      rcases h with rfl | ⟨_, _, _, rfl⟩
      · rfl
      · rfl
  | rwbdelete rwb => exact hlocal rwb _ _ (View.local_delete g rwb) h
  | rwbreset rwb count => exact hlocal rwb _ _ (View.local_reset g rwb count) h
  | rwbTryread rwb => exact hlocal rwb _ _ (View.local_tryread g s.currpid rwb) h
  | rwbTrywrite rwb => exact hlocal rwb _ _ (View.local_trywrite g s.currpid rwb) h
  | signalrwb rwb => exact hlocal rwb _ _ (signalrwb_local g s.currpid s.currpid rwb) h
  | clkhandler =>
      rcases h with ⟨l₁, l₂, _, _, _, rfl⟩
      rfl
  | resume pid => exact h.defers
  | suspend pid => exact h.defers
  | chprio pid newprio => exact h.defers
  | yield => exact h.defers
  | semcreate count => exact h.defers
  | wait sem => exact h.defers
  | signal sem => exact h.defers
  | signaln sem count => exact h.defers
  | semreset sem count => exact h.defers
  | semdelete sem => exact h.defers
  | receive => exact h.defers
  | recvclr => exact h.defers
  | setScheduler newval => exact h.defers

theorem killState_defers (g : View) (cur pid : Int) (prstate : PrState) (prsem : Int) :
    (g.killState cur pid prstate prsem).defers = g.defers := by
  unfold View.killState
  cases prstate with
  | ready =>
      dsimp only
      unfold View.killReady
      split
      · dsimp only
        split
        · exact (signalrwb_local _ cur pid _).defers
        · rfl
      · rfl
  | wait =>
      dsimp only
      split
      · rfl
      · rfl
  | _ => rfl

theorem frameMove_defers (g : View) (s : Xinu) (f : Frame) :
    ((g.popped s.currpid f).frameMove s f).defers = g.defers := by
  have hpop : (g.popped s.currpid f).defers = g.defers := by
    unfold View.popped
    split
    · rfl
    · rfl
  cases f with
  | killSent pid => exact (killState_defers _ _ _ _ _).trans hpop
  | rwbReader thisid rwb => exact (signalReader_local _ _ thisid rwb).defers.trans hpop
  | _ => exact hpop

/-- One step of the machine. -/
theorem step_good (hG : Good w g s) (hfit : Fits w s l) (hstep : s.step l = some s') :
    ∃ g', g.Moves w s l g' s' ∧ Good w g' s' := by
  have hsleepers : ∀ g', g.Moves w s l g' s' → w.delays →
      ∀ p ∈ g'.lists sleepq, 0 < g'.due p ∧ g'.due p < 2147483648 :=
    fun g' h hw => (moves_sleepMove hG hfit h).asleep hw (hG.asleep hw)
  unfold Xinu.step at hstep
  split at hstep
  · cases hstep
  · split at hstep
    · rename_i c hs
      cases hstep
      rcases call_ok hG hfit with ⟨g', hmoves, hO⟩
      exact ⟨g', hmoves, hO, (callMoves_defers hmoves).trans hG.defers,
        callMoves_stacks hG hmoves, hsleepers g' hmoves⟩
    · rename_i f rest hs
      cases hstep
      have hmoves : g.Moves w s .cont ((g.popped s.currpid f).frameMove s f)
          (s.pop.frame f) := ⟨f, rest, hs, rfl⟩
      exact ⟨_, hmoves, frame_ok hG hs hfit, (frameMove_defers g s f).trans hG.defers,
        frameMove_stacks hG hs hfit, hsleepers _ hmoves⟩
    · cases hstep

/-- The state after initialization. -/
theorem sysinit_good (w : Watch) (mem : Mem) (rand : Nat → Nat) :
    Good w bootView (Xinu.sysinit mem rand) where
  ok := sysinit_ok mem rand w
  defers := rfl
  stacked := ⟨fun _ => trivial, fun p p' v h => by cases h⟩
  asleep := fun _ p hp => by cases hp

end

end BbbXinu
