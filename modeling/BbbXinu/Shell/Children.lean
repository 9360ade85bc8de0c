import BbbXinu.Kernel.Machine

/-!
# Commands of the shell

The end of the loop of {lit}`shell.c`.  A child is created for the command, old
messages are cleared and the child is resumed; unless the command runs in the
background, the shell then receives messages until one of them is the process id
of the child.  At the prompt the shell may make any call.
-/

namespace BbbXinu

def SHELL_CMDSTK : Nat := 8192
def SHELL_CMDPRIO : Int := 20

/-- Where the shell is in its loop, with the child of the command. -/
inductive Stage where
  | prompt
  | created (child : Int) (backgnd : Bool)
  | cleared (child : Int) (backgnd : Bool)
  | resumed (child : Int)
  | waiting (child : Int)
  deriving DecidableEq, Repr

namespace Stage

def child : Stage → Option Int
  | .prompt => none
  | .created child _ | .cleared child _ | .resumed child | .waiting child => some child

/-- The child that the shell waits for or is going to wait for. -/
def foreground : Stage → Option Int
  | .created child false | .cleared child false | .resumed child | .waiting child => some child
  | _ => none

/-- The test of the shell's loop on a message. -/
def message (child msg : Int) : Stage :=
  if msg ≠ child ∧ msg ≠ NULLPROC then .waiting child else .prompt

end Stage

/-- A step of the kernel, or the {lit}`create` that the shell makes for a command;
the arguments of the command may turn out not to fit. -/
inductive ShellLabel where
  | kernel (l : Label)
  | spawn (backgnd addargs : Bool)

def ShellLabel.label : ShellLabel → Label
  | .kernel l => l
  | .spawn _ _ => .call (.create SHELL_CMDSTK SHELL_CMDPRIO)

namespace Xinu

variable (s : Xinu)

/-- The running process comes back from {lit}`receive` with a message. -/
def receives : Label → Bool
  | .call .receive => (s.proctab s.currpid).prhasmsg
  | .cont =>
      match s.stack s.currpid with
      | .receive :: _ => true
      | _ => false
  | _ => false

/-- The step is a call of {lit}`kill` that passes its checks. -/
def kills (l : Label) (pid : Int) : Prop :=
  l = .call (.kill pid) ∧ ¬ (s.isbadpid pid ∨ pid = NULLPROC) ∧ 2 < s.prcount

instance (l : Label) (pid : Int) : Decidable (s.kills l pid) :=
  inferInstanceAs (Decidable (_ ∧ _))

end Xinu

/-- The next stage after a step of the shell; {lit}`retval` is what its call
returned. -/
def Stage.next (s : Xinu) (retval : Int) : Stage → ShellLabel → Stage
  | .prompt, .spawn backgnd addargs =>
      if retval = SYSERR ∨ addargs = false then .prompt else .created retval backgnd
  | .created child backgnd, .kernel (.call .recvclr) => .cleared child backgnd
  | .cleared child backgnd, .kernel (.call (.resume _)) =>
      if backgnd then .prompt else .resumed child
  | .resumed child, .kernel (.call .receive) | .waiting child, .kernel (.call .receive) =>
      if s.receives (.call .receive) then .message child retval else .waiting child
  | .waiting child, .kernel .cont =>
      if s.receives .cont then .message child retval else .waiting child
  | stage, _ => stage

/-- The shell as a parent: its stage, and whether its child has been killed since
it was created. -/
structure Parent where
  stage : Stage
  killed : Bool
  deriving DecidableEq, Repr

def Parent.init : Parent := { stage := .prompt, killed := false }

/-- What an observer of the process {lit}`sh` notes of a step. -/
def Parent.next (sh : Int) (t : Parent) (s : Xinu) (l : ShellLabel) (s' : Xinu) : Parent :=
  let stage := if s.currpid = sh then t.stage.next s (s'.retval sh) l else t.stage
  -- a shell that is killed is no shell any more
  let stage := if (s'.proctab sh).prstate = .free then .prompt else stage
  { stage := stage
    killed := stage.child.any fun child =>
      decide (t.stage.child = some child ∧ (t.killed = true ∨ s.kills l.label child) ∨
        (s'.proctab child).prstate = .free) }

/-- The kernel with the shell {lit}`sh` in it. -/
def shellStep (sh : Int) (t : Xinu × Parent) (l : ShellLabel) : Option (Xinu × Parent) :=
  (t.1.step l.label).map fun s' => (s', t.2.next sh t.1 l s')

/-- The calls that the code of the shell makes at each stage. -/
def Stage.calls : Stage → Call → Prop
  | .prompt, _ => True
  | .created _ _, c => c = .recvclr
  | .cleared child _, c => c = .resume child
  | .resumed _, c | .waiting _, c => c = .receive

instance (stage : Stage) (c : Call) : Decidable (stage.calls c) := by
  induction stage using Stage.casesOn <;> unfold Stage.calls <;> infer_instance

/-- The shell runs its code, with clock interrupts at any time; the others do what
they like. -/
def RunsShell (sh : Int) (t : Xinu × Parent) : ShellLabel → Prop
  | .spawn _ _ => t.1.currpid = sh ∧ t.2.stage = .prompt
  | .kernel (.call c) => t.1.currpid = sh → c = .clkhandler ∨ t.2.stage.calls c
  | .kernel .cont => True

instance (sh : Int) (t : Xinu × Parent) (l : ShellLabel) : Decidable (RunsShell sh t l) := by
  induction l using ShellLabel.casesOn with
  | spawn backgnd addargs => exact inferInstanceAs (Decidable (_ ∧ _))
  | kernel l =>
      induction l using Label.casesOn with
      | call c => exact inferInstanceAs (Decidable (_ → _))
      | cont => exact inferInstanceAs (Decidable True)

end BbbXinu
