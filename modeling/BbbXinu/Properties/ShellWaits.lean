import BbbXinu.Properties.MailMoves

/-!
# The shell and its children

The shell learns from one message that its child has ended.  The message is lost
when the mailbox of the shell is full, and then the shell waits for a process that
is gone.
-/

namespace BbbXinu

open Runs

/-- Whenever the child that the shell waits for is killed, the shell has cleared
its old messages and its mailbox is empty, or holds what ends the wait; and no
{lit}`kill` that began before the child was created ends it. -/
def Reported (sh : Int) (t : Xinu × Parent) (l : ShellLabel) : Prop :=
  ∀ child, t.2.stage.foreground = some child →
    (t.1.kills l.label child → t.2.stage ≠ .created child false ∧
      (t.1.word sh = none ∨ t.1.word sh = some child ∨ t.1.word sh = some NULLPROC)) ∧
    (t.1.frees l.label child → t.2.killed = true)

/-- The shell is blocked in its wait, without a message, and the child is dead. -/
def WaitsForDead (sh : Int) (t : Xinu × Parent) : Prop :=
  (∃ child, t.2.stage = .waiting child) ∧ t.2.killed = true ∧
    (t.1.proctab sh).prstate = .recv ∧ t.1.word sh = none

/-- The kernel is booted and the shell is about to read its first command. -/
def ShellBooted (t : Xinu × Parent) : Prop := Booted t.1 ∧ t.2 = Parent.init

/-- The invariant of runs in which the ends of the children are reported. -/
structure Attends (sh : Int) (t : Xinu × Parent) : Prop where
  awake : WaitsEmpty t.1
  alive : t.2.stage ≠ .prompt → (t.1.proctab sh).prstate ≠ .free
  /-- The shell has left only {lit}`receive` half done, and only in its wait. -/
  frames : t.2.stage ≠ .prompt → ∀ f ∈ t.1.stack sh, f.fetches = true →
    f = .receive ∧ ∃ child, t.2.stage = .waiting child
  child : ∀ child, t.2.stage.child = some child → t.2.killed = false →
    (t.1.proctab child).prstate ≠ .free ∧ (t.1.proctab child).prparent = sh
  reported : ∀ child, t.2.stage.foreground = some child → t.2.killed = true →
    t.2.stage ≠ .created child false ∧
      (t.1.word sh = some child ∨ t.1.word sh = some NULLPROC)

section

variable {s : Xinu} {t t' : Xinu × Parent} {l : ShellLabel} {sh child : Int}

/-- The steps of the shell from stage to stage. -/
inductive StageMove (s : Xinu) (retval : Int) : Stage → ShellLabel → Stage → Prop where
  | prompt (stage : Stage) (l : ShellLabel) : StageMove s retval stage l .prompt
  | same (stage : Stage) (l : ShellLabel)
      (hwaits : ∀ child, stage = .waiting child → s.receives l.label = false)
      (hfirst : ∀ child, stage = .resumed child → l ≠ .kernel (.call .receive)) :
      StageMove s retval stage l stage
  | spawn (backgnd addargs : Bool) (h : retval ≠ SYSERR) :
      StageMove s retval .prompt (.spawn backgnd addargs) (.created retval backgnd)
  | clear (child : Int) (backgnd : Bool) :
      StageMove s retval (.created child backgnd) (.kernel (.call .recvclr))
        (.cleared child backgnd)
  | resume (child pid : Int) :
      StageMove s retval (.cleared child false) (.kernel (.call (.resume pid))) (.resumed child)
  | wait (stage : Stage) (l : ShellLabel) (child : Int)
      (hstage : stage = .resumed child ∨ stage = .waiting child)
      (hmsg : s.receives l.label = true → retval ≠ child ∧ retval ≠ NULLPROC) :
      StageMove s retval stage l (.waiting child)

theorem message_move {child retval : Int} {stage : Stage} {l : ShellLabel}
    (hstage : stage = .resumed child ∨ stage = .waiting child) :
    StageMove s retval stage l (.message child retval) := by
  unfold Stage.message
  split
  · rename_i hmsg
    exact .wait stage l child hstage fun _ => hmsg
  · exact .prompt stage l

theorem stage_move (s : Xinu) (retval : Int) (stage : Stage) (l : ShellLabel) :
    StageMove s retval stage l (stage.next s retval l) := by
  unfold Stage.next
  split
  · rename_i backgnd addargs
    split
    · exact .prompt _ _
    · rename_i hgood
      exact .spawn backgnd addargs fun h => hgood (Or.inl h)
  · exact .clear _ _
  · rename_i child backgnd pid
    cases backgnd with
    | false => exact .resume child pid
    | true => exact .prompt _ _
  · rename_i child
    split
    · exact message_move (Or.inl rfl)
    · rename_i hreceives
      exact .wait _ _ child (Or.inl rfl) fun h => absurd h hreceives
  · rename_i child
    split
    · exact message_move (Or.inr rfl)
    · rename_i hreceives
      exact .wait _ _ child (Or.inr rfl) fun h => absurd h hreceives
  · rename_i child
    split
    · exact message_move (Or.inr rfl)
    · rename_i hreceives
      exact .wait _ _ child (Or.inr rfl) fun h => absurd h hreceives
  · rename_i hspawn hclear hresume hfirst hagain hcont
    refine .same stage l ?_ hfirst
    rintro child rfl
    cases l with
    | spawn backgnd addargs => rfl
    | kernel l =>
        cases l with
        | cont => exact absurd rfl (hcont child rfl)
        | call c =>
            cases c with
            | receive => exact absurd rfl (hagain child rfl)
            | _ => rfl

/-!
## Steps of the shell
-/

theorem shellStep_eq (h : shellStep sh t l = some t') :
    t.1.step l.label = some t'.1 ∧ t'.2 = t.2.next sh t.1 l t'.1 := by
  rcases Option.map_eq_some_iff.mp h with ⟨s', hs, rfl⟩
  exact ⟨hs, rfl⟩

/-- A shell that is not at the prompt lives, and either it has made a step or its
stage is the old one. -/
theorem next_stage (h : shellStep sh t l = some t') (hne : t'.2.stage ≠ .prompt) :
    (t'.1.proctab sh).prstate ≠ .free ∧
      (t.1.currpid ≠ sh ∧ t'.2.stage = t.2.stage ∨
        t.1.currpid = sh ∧ StageMove t.1 (t'.1.retval sh) t.2.stage l t'.2.stage) := by
  rw [(shellStep_eq h).2] at hne ⊢
  unfold Parent.next at hne ⊢
  dsimp only at hne ⊢
  by_cases hfree : (t'.1.proctab sh).prstate = .free
  · rw [if_pos hfree] at hne
    exact absurd rfl hne
  · rw [if_neg hfree]
    refine ⟨hfree, ?_⟩
    by_cases hcp : t.1.currpid = sh
    · rw [if_pos hcp]
      exact Or.inr ⟨hcp, stage_move _ _ _ _⟩
    · rw [if_neg hcp]
      exact Or.inl ⟨hcp, rfl⟩

theorem next_killed (h : shellStep sh t l = some t') (hchild : t'.2.stage.child = some child) :
    t'.2.killed = true ↔
      t.2.stage.child = some child ∧ (t.2.killed = true ∨ t.1.kills l.label child) ∨
        (t'.1.proctab child).prstate = .free := by
  rw [(shellStep_eq h).2] at hchild ⊢
  unfold Parent.next at hchild ⊢
  dsimp only at hchild ⊢
  rw [hchild, Option.any_some, decide_eq_true_eq]

/-- The child is the old one, or was created in this step. -/
theorem child_origin (h : shellStep sh t l = some t') (hchild : t'.2.stage.child = some child) :
    t.2.stage.child = some child ∨
      ∃ backgnd addargs, l = .spawn backgnd addargs ∧ t.1.currpid = sh ∧
        t'.2.stage = .created child backgnd ∧ t'.1.retval sh = child ∧ child ≠ SYSERR := by
  have hne : t'.2.stage ≠ .prompt := by
    intro hprompt
    rw [hprompt] at hchild
    cases hchild
  rcases (next_stage h hne).2 with ⟨-, hsame⟩ | ⟨hcp, hmove⟩
  · rw [← hsame]
    exact Or.inl hchild
  · generalize hstage' : t'.2.stage = stage' at hmove hchild
    generalize t.2.stage = stage at hmove
    cases hmove with
    | prompt => cases hchild
    | same => exact Or.inl hchild
    | spawn backgnd addargs hgood =>
        cases hchild
        exact Or.inr ⟨backgnd, addargs, rfl, hcp, rfl, rfl, hgood⟩
    | clear => exact Or.inl hchild
    | resume => exact Or.inl hchild
    | wait _ _ c hstage hmsg =>
        rcases hstage with rfl | rfl
        · exact Or.inl hchild
        · exact Or.inl hchild

/-- A child that was just created is alive and the shell's. -/
theorem spawned_child {backgnd addargs : Bool}
    (hm : MailMove t.1 (ShellLabel.spawn backgnd addargs).label t'.1)
    (hretval : t'.1.retval t.1.currpid = child) (hgood : child ≠ SYSERR) :
    (t'.1.proctab child).prstate ≠ .free ∧
      (t'.1.proctab child).prparent = t.1.currpid := by
  cases hm with
  | hushed hpost hrecv hcreate hh =>
      exact absurd (hretval.symm.trans (hcreate _ _ rfl)) hgood
  | post pid msg hpost => cases hpost
  | create n prio pid hl hfree hnew hrest hframes hpid =>
      rw [← hretval, hpid, hnew.2.2]
      exact ⟨(fun h => by cases h), hnew.1⟩
  | waits hl => cases hl
  | naps maxwait hl => cases hl
  | takes hl => rcases hl with h | h | ⟨maxwait, h⟩ | ⟨h, -⟩ <;> cases h

/-- The shell goes on waiting for the same child, and does not go back. -/
theorem foreground_origin (h : shellStep sh t l = some t')
    (hfg : t'.2.stage.foreground = some child) (hold : t.2.stage.child = some child) :
    t.2.stage.foreground = some child ∧
      (t.2.stage ≠ .created child false → t'.2.stage ≠ .created child false) := by
  have hne : t'.2.stage ≠ .prompt := by
    intro hprompt
    rw [hprompt] at hfg
    cases hfg
  rcases (next_stage h hne).2 with ⟨-, hsame⟩ | ⟨hcp, hmove⟩
  · rw [← hsame]
    exact ⟨hfg, id⟩
  · generalize t'.2.stage = stage' at hmove hfg
    generalize t.2.stage = stage at hmove hold
    cases hmove with
    | prompt => cases hfg
    | same => exact ⟨hfg, id⟩
    | spawn backgnd addargs hgood => cases hold
    | clear c backgnd =>
        cases backgnd with
        | false => exact ⟨hfg, fun _ h => by cases h⟩
        | true => cases hfg
    | resume c => exact ⟨hfg, fun _ h => by cases h⟩
    | wait _ _ c hstage hmsg =>
        rcases hstage with rfl | rfl
        · exact ⟨hfg, fun _ h => by cases h⟩
        · exact ⟨hfg, fun _ h => by cases h⟩

/-- Past the clearing of its mailbox the shell takes messages in its loop only. -/
theorem Attends.takes_in_loop (hA : Attends sh t) (hrun : RunsShell sh t l)
    (hcp : t.1.currpid = sh) (hfetch : t.1.fetchesNow l.label)
    (hfg : t.2.stage.foreground = some child) (hcleared : t.2.stage ≠ .created child false) :
    t.1.receives l.label = true ∧ (t.2.stage = .waiting child ∨
      t.2.stage = .resumed child ∧ l = .kernel (.call .receive)) := by
  have hne : t.2.stage ≠ .prompt := by
    intro hprompt
    rw [hprompt] at hfg
    cases hfg
  cases l with
  | spawn backgnd addargs => rcases hfetch with h | h | ⟨maxwait, h⟩ | ⟨h, -⟩ <;> cases h
  | kernel l =>
      cases l with
      | call c =>
          have hcalls := hrun hcp
          generalize hstage : t.2.stage = stage at hfg hcleared hcalls hne
          have hc : c ≠ .clkhandler := by
            rintro rfl
            rcases hfetch with h | h | ⟨maxwait, h⟩ | ⟨h, -⟩ <;> cases h
          have hcalls := hcalls.resolve_left hc
          cases stage with
          | prompt => cases hfg
          | created d backgnd =>
              cases backgnd with
              | false =>
                  cases hfg
                  exact absurd rfl hcleared
              | true => cases hfg
          | cleared d backgnd =>
              cases hcalls
              rcases hfetch with h | h | ⟨maxwait, h⟩ | ⟨h, -⟩ <;> cases h
          | resumed d =>
              cases hcalls
              cases hfg
              rcases hfetch with h | h | ⟨maxwait, h⟩ | ⟨h, -⟩
              · exact ⟨h, Or.inr ⟨rfl, rfl⟩⟩
              · cases h
              · cases h
              · cases h
          | waiting d =>
              cases hcalls
              cases hfg
              rcases hfetch with h | h | ⟨maxwait, h⟩ | ⟨h, -⟩
              · exact ⟨h, Or.inl rfl⟩
              · cases h
              · cases h
              · cases h
      | cont =>
          rcases hfetch with h | h | ⟨maxwait, h⟩ | ⟨-, hmem⟩
          · refine ⟨h, Or.inl ?_⟩
            have hmem : Frame.receive ∈ t.1.stack sh := by
              rw [← hcp]
              change t.1.receives .cont = true at h
              unfold Xinu.receives at h
              dsimp only at h
              split at h
              · rename_i rest hs
                rw [hs]
                exact List.mem_cons_self
              · cases h
            rcases (hA.frames hne .receive hmem rfl).2 with ⟨d, hd⟩
            rw [hd] at hfg ⊢
            cases hfg
            rfl
          · cases h
          · cases h
          · rw [hcp] at hmem
            have hbad := (hA.frames hne .recvtime hmem rfl).1
            cases hbad

/-- A report in the mailbox stays there until the shell takes it and leaves its
loop. -/
theorem Attends.report_kept (hA : Attends sh t) (hrun : RunsShell sh t l)
    (h : shellStep sh t l = some t') (hfg' : t'.2.stage.foreground = some child)
    (hfg : t.2.stage.foreground = some child) (hcleared : t.2.stage ≠ .created child false)
    {msg : Int} (hmsg : msg = child ∨ msg = NULLPROC) (hword : t.1.word sh = some msg) :
    t'.1.word sh = some msg := by
  have hm := step_move (shellStep_eq h).1
  have hne : t.2.stage ≠ .prompt := by
    intro hprompt
    rw [hprompt] at hfg
    cases hfg
  have hne' : t'.2.stage ≠ .prompt := by
    intro hprompt
    rw [hprompt] at hfg'
    cases hfg'
  rcases hm.word (hA.alive hne) with ⟨m, hpost, -⟩ | ⟨-, hsame⟩ | ⟨hcp, hfetch, hretval⟩
  · have hnone := word_none (posted_accepts hpost).2
    rw [hword] at hnone
    cases hnone
  · exact hsame.trans hword
  · exfalso
    have hloop := hA.takes_in_loop hrun hcp.symm hfetch hfg hcleared
    have hret : t'.1.retval sh = msg := by
      rw [hretval]
      unfold Xinu.word at hword
      split at hword
      · exact Option.some.inj hword
      · cases hword
    rcases (next_stage h hne').2 with ⟨hother, -⟩ | ⟨-, hmove⟩
    · exact hother hcp.symm
    · rw [hret] at hmove
      generalize t'.2.stage = stage' at hmove hne' hfg'
      rcases hloop with ⟨hreceives, hstage | ⟨hstage, rfl⟩⟩
      · rw [hstage] at hmove
        cases hmove with
        | prompt => exact hne' rfl
        | same _ _ hwaits _ =>
            rw [hwaits child rfl] at hreceives
            cases hreceives
        | wait _ _ c hstage' hother =>
            cases hfg'
            rcases hmsg with hm | hm
            · exact (hother hreceives).1 hm
            · exact (hother hreceives).2 hm
      · rw [hstage] at hmove
        cases hmove with
        | prompt => exact hne' rfl
        | same _ _ _ hfirst => exact hfirst child rfl rfl
        | wait _ _ c hstage' hother =>
            cases hfg'
            rcases hmsg with hm | hm
            · exact (hother hreceives).1 hm
            · exact (hother hreceives).2 hm

/-- What the mailbox of the shell holds after the child was killed. -/
theorem Attends.reported_step (hsh : ValidPid sh) (hA : Attends sh t) (hrun : RunsShell sh t l)
    (hrep : Reported sh t l) (h : shellStep sh t l = some t')
    (hfg' : t'.2.stage.foreground = some child) (hkilled' : t'.2.killed = true) :
    t'.2.stage ≠ .created child false ∧
      (t'.1.word sh = some child ∨ t'.1.word sh = some NULLPROC) := by
  have hm := step_move (shellStep_eq h).1
  have hchild' : t'.2.stage.child = some child := by
    generalize t'.2.stage = stage at hfg'
    cases stage with
    | prompt => cases hfg'
    | created c backgnd => cases backgnd <;> first | exact hfg' | cases hfg'
    | cleared c backgnd => cases backgnd <;> first | exact hfg' | cases hfg'
    | resumed c => exact hfg'
    | waiting c => exact hfg'
  have hkills := (next_killed h hchild').mp hkilled'
  rcases child_origin h hchild' with hold | ⟨backgnd, addargs, rfl, hcp, -, hretval, hgood⟩
  · have hforeground := foreground_origin h hfg' hold
    have hreports := hrep child hforeground.1
    have hne : t.2.stage ≠ .prompt := by
      intro hprompt
      rw [hprompt] at hold
      cases hold
    by_cases hkilled : t.2.killed = true
    · rcases hA.reported child hforeground.1 hkilled with ⟨hcleared, hword⟩
      refine ⟨hforeground.2 hcleared, ?_⟩
      rcases hword with hword | hword
      · exact Or.inl (hA.report_kept hrun h hfg' hforeground.1 hcleared (Or.inl rfl) hword)
      · exact Or.inr (hA.report_kept hrun h hfg' hforeground.1 hcleared (Or.inr rfl) hword)
    · have halive := hA.child child hold (Bool.eq_false_iff.mpr hkilled)
      have hnow : t.1.kills l.label child := by
        rcases hkills with ⟨-, hk | hk⟩ | hfree
        · exact absurd hk hkilled
        · exact hk
        · exact absurd (hreports.2 ((hm.living halive.1).2 hfree)) hkilled
      rcases hreports.1 hnow with ⟨hcleared, hword⟩
      refine ⟨hforeground.2 hcleared, ?_⟩
      rcases hword with hnone | hword | hword
      · -- the mailbox is empty, and the report is delivered
        left
        have haccepts : t.1.accepts sh := by
          refine ⟨?_, word_eq_none.mp hnone⟩
          rw [Xinu.not_isbadpid_iff]
          exact ⟨hsh, hA.alive hne⟩
        have hpost : t.1.posted l.label = some (sh, child.toNat) := by
          rw [hnow.1]
          unfold Xinu.posted
          dsimp only
          have hparent := halive.2
          rw [hparent, if_pos]
          exact ⟨not_or.mp hnow.2.1, hnow.2.2, haccepts⟩
        have hpos : 0 ≤ child := by
          have hgood := (not_or.mp hnow.2.1).1
          rw [Xinu.not_isbadpid_iff] at hgood
          exact hgood.1.1
        rcases hm.word (hA.alive hne) with ⟨m, hm', hword⟩ | ⟨hsilent, -⟩ | ⟨-, hfetch, -⟩
        · cases hpost.symm.trans hm'
          rw [hword, Int.toNat_of_nonneg hpos]
        · exact absurd hpost (hsilent _)
        · cases (fetchesNow_posted hfetch).symm.trans hpost
      · exact Or.inl (hA.report_kept hrun h hfg' hforeground.1 hcleared (Or.inl rfl) hword)
      · exact Or.inr (hA.report_kept hrun h hfg' hforeground.1 hcleared (Or.inr rfl) hword)
  · exfalso
    have hnew := spawned_child hm (hcp ▸ hretval) hgood
    rcases hkills with ⟨hold, -⟩ | hfree
    · have hprompt := hrun.2
      rw [hprompt] at hold
      cases hold
    · exact hnew.1 hfree

/-- Frames that take a message belong to the wait. -/
theorem Attends.frames_step (hA : Attends sh t) (hrun : RunsShell sh t l)
    (h : shellStep sh t l = some t') (hne' : t'.2.stage ≠ .prompt) {f : Frame}
    (hf : f ∈ t'.1.stack sh) (hfetch : f.fetches = true) :
    f = .receive ∧ ∃ child, t'.2.stage = .waiting child := by
  have hstep := (shellStep_eq h).1
  have hnext := (next_stage h hne').2
  generalize t'.2.stage = stage' at hne' hnext ⊢
  rcases (step_move hstep).frames hf hfetch with hold | ⟨hp, hnew⟩
  · -- the frame is an old one
    by_cases hne : t.2.stage = .prompt
    · exfalso
      rcases hnext with ⟨-, hsame⟩ | ⟨hcp, hmove⟩
      · exact hne' (hsame.trans hne)
      · rw [hne] at hmove
        cases hmove with
        | prompt => exact hne' rfl
        | same => exact hne' rfl
        | spawn backgnd addargs hgood =>
            have hempty : t.1.stack t.1.currpid = [] := by
              apply stack_of_call (c := .create SHELL_CMDSTK SHELL_CMDPRIO)
              exact fun hnone => by cases hnone.symm.trans hstep
            rw [← hcp, hempty] at hold
            cases hold
        | wait _ _ c hstage hmsg => rcases hstage with h | h <;> cases h
    · rcases hA.frames hne f hold hfetch with ⟨hreceive, d, hd⟩
      refine ⟨hreceive, ?_⟩
      rcases hnext with ⟨-, hsame⟩ | ⟨hcp, hmove⟩
      · exact ⟨d, hsame.trans hd⟩
      · rw [hd] at hmove
        cases hmove with
        | prompt => exact absurd rfl hne'
        | same => exact ⟨d, rfl⟩
        | wait _ _ c hstage hmsg => exact ⟨c, rfl⟩
  · -- the shell has just called {lit}`receive`
    rcases hnext with ⟨hother, -⟩ | ⟨hcp, hmove⟩
    · exact absurd hp.symm hother
    · cases l with
      | spawn backgnd addargs => rcases hnew with ⟨-, h⟩ | ⟨maxwait, h⟩ <;> cases h
      | kernel l =>
          rcases hnew with ⟨hreceive, hl⟩ | ⟨maxwait, hl⟩
          · change l = _ at hl
            subst hl
            have hcalls : t.2.stage.calls .receive := (hrun hcp).resolve_left fun h => by cases h
            generalize t.2.stage = stage at hmove hcalls
            refine ⟨hreceive, ?_⟩
            cases hmove with
            | prompt => exact absurd rfl hne'
            | same _ _ hwaits hfirst =>
                cases stage' with
                | prompt => exact absurd rfl hne'
                | created d backgnd => cases hcalls
                | cleared d backgnd => cases hcalls
                | resumed d => exact absurd rfl (hfirst d rfl)
                | waiting d => exact ⟨d, rfl⟩
            | wait _ _ c hstage hmsg => exact ⟨c, rfl⟩
          · change l = _ at hl
            subst hl
            have hcalls : t.2.stage.calls (.recvtime maxwait) :=
              (hrun hcp).resolve_left fun h => by cases h
            generalize t.2.stage = stage at hmove hcalls
            exfalso
            cases stage with
            | prompt =>
                cases hmove with
                | prompt => exact hne' rfl
                | same => exact hne' rfl
                | wait _ _ c hstage hmsg => rcases hstage with h | h <;> cases h
            | created d backgnd => cases hcalls
            | cleared d backgnd => cases hcalls
            | resumed d => cases hcalls
            | waiting d => cases hcalls

theorem Attends.step (hsh : ValidPid sh) (hA : Attends sh t) (hrun : RunsShell sh t l)
    (hrep : Reported sh t l) (h : shellStep sh t l = some t') : Attends sh t' where
  awake := hA.awake.move (step_move (shellStep_eq h).1)
  alive := fun hne => (next_stage h hne).1
  frames := fun hne f hf hfetch => hA.frames_step hrun h hne hf hfetch
  child := by
    intro child hchild' hkilled'
    have hm := step_move (shellStep_eq h).1
    have hnot : ¬ (t.2.stage.child = some child ∧
        (t.2.killed = true ∨ t.1.kills l.label child) ∨
          (t'.1.proctab child).prstate = .free) := by
      rw [← next_killed h hchild', hkilled']
      exact Bool.false_ne_true
    refine ⟨fun hfree => hnot (Or.inr hfree), ?_⟩
    rcases child_origin h hchild' with hold | ⟨backgnd, addargs, rfl, hcp, -, hretval, hgood⟩
    · have hkilled : t.2.killed = false :=
        Bool.eq_false_iff.mpr fun hk => hnot (Or.inl ⟨hold, Or.inl hk⟩)
      have halive := hA.child child hold hkilled
      exact (hm.living halive.1).1.trans halive.2
    · rw [← hcp] at hretval
      exact (spawned_child hm hretval hgood).2.trans hcp
  reported := fun _ hfg hkilled => hA.reported_step hsh hrun hrep h hfg hkilled

theorem attends_boot (h : ShellBooted t) : Attends sh t := by
  rcases h with ⟨⟨mem, rand, hs⟩, hparent⟩
  have hprompt : t.2.stage = .prompt := congrArg Parent.stage hparent
  refine ⟨?_, ?_, ?_, ?_, ?_⟩
  · rw [hs]
    intro p hrecv
    rw [sysinit_proctab mem rand p] at hrecv
    split at hrecv
    · cases hrecv
    · cases hrecv
  · exact fun hne => absurd hprompt hne
  · exact fun hne => absurd hprompt hne
  · rw [hprompt]
    exact fun child hchild => by cases hchild
  · rw [hprompt]
    exact fun child hfg => by cases hfg

/-- In every run in which the end of each child is reported, the shell never waits
for a child that is dead. -/
theorem never_waits_for_dead (hsh : ValidPid sh)
    (h : Reach (shellStep sh) (fun t l => RunsShell sh t l ∧ Reported sh t l) ShellBooted t) :
    ¬ WaitsForDead sh t := by
  have hA : Attends sh t := by
    apply h.invariant
    · exact fun t ht => attends_boot ht
    · exact fun t l t' _ hA henv hstep => hA.step hsh henv.1 henv.2 hstep
  rintro ⟨⟨child, hstage⟩, hkilled, hrecv, hnone⟩
  have hfg : t.2.stage.foreground = some child := by rw [hstage]; rfl
  rcases (hA.reported child hfg hkilled).2 with hword | hword
  · cases hnone.symm.trans hword
  · cases hnone.symm.trans hword

end

instance (sh : Int) (t : Xinu × Parent) (l : ShellLabel) : Decidable (Reported sh t l) :=
  match h : t.2.stage.foreground with
  | none => isTrue fun child hchild => by cases h.symm.trans hchild
  | some child =>
      decidable_of_iff ((t.1.kills l.label child → t.2.stage ≠ .created child false ∧
        (t.1.word sh = none ∨ t.1.word sh = some child ∨ t.1.word sh = some NULLPROC)) ∧
        (t.1.frees l.label child → t.2.killed = true)) (by
          constructor
          · intro hr c hc
            cases h.symm.trans hc
            exact hr
          · exact fun hr => hr child h)

theorem shellBooted_sample : ShellBooted (sampleBoot, Parent.init) := ⟨booted_sample, rfl⟩

/-- A child in the foreground ends before its shell waits for it. -/
theorem never_waits_for_dead_ended : ∃ t, t.2.killed = true ∧ t.1.word 1 = some 2 ∧
    ¬ WaitsForDead 1 t := by
  rcases exists_reach_of_follow (shellStep 1) (fun t l => RunsShell 1 t l ∧ Reported 1 t l)
    shellBooted_sample
    [.kernel (.call (.create 4096 20)), .kernel (.call (.resume 1)), .spawn false true,
      .kernel (.call .recvclr), .kernel (.call (.resume 2)), .kernel (.call (.kill 2)),
      .kernel .cont]
    (fun t => t.2.killed = true ∧ t.1.word 1 = some 2) (by decide +kernel) with
    ⟨t, ht, hkilled, hword⟩
  exact ⟨t, hkilled, hword, never_waits_for_dead (show ValidPid 1 by decide) ht⟩

/-- A command in the background ends while the shell starts another one: its message
fills the mailbox, that of the second child is lost, and the shell waits for ever. -/
theorem report_lost : ¬ ∀ t, Reach (shellStep 1) (RunsShell 1) ShellBooted t →
    ¬ WaitsForDead 1 t := by
  intro h
  rcases exists_reach_of_follow (shellStep 1) (RunsShell 1) shellBooted_sample
    [.kernel (.call (.create 4096 20)), .kernel (.call (.resume 1)),
      .spawn true true, .kernel (.call .recvclr), .kernel (.call (.resume 2)),
      .kernel (.call .yield), .kernel .cont,
      .spawn false true, .kernel (.call .recvclr), .kernel (.call (.resume 3)),
      .kernel .cont, .kernel (.call (.kill 2)), .kernel .cont,
      .kernel (.call (.kill 3)), .kernel .cont, .kernel .cont,
      .kernel (.call .receive), .kernel (.call .receive)]
    (fun t => t.2.stage = .waiting 3 ∧ t.2.killed = true ∧
      (t.1.proctab 1).prstate = .recv ∧ t.1.word 1 = none) (by decide +kernel) with
    ⟨t, ht, hstage, hrest⟩
  exact h t ht ⟨⟨3, hstage⟩, hrest⟩

end BbbXinu
