import BbbXinu.Lib.Runs
import BbbXinu.Lib.Table
import BbbXinu.Lib.Turnstiles

/-!
# Memory marks

{lit}`mark` of {lit}`mark.c`, called by any processes.  A process may lose the processor
between its two tests and the insertion, and before it signals.  The locations are those
outside the variables of {lit}`mark.c`.

The log is not part of the code.  It has the indices at which {lit}`marks` was written, and
the locations for which {lit}`mark` returned {lit}`OK`.
-/

namespace BbbXinu

def MAXMARK : Int := 20

/-- Where a process is in {lit}`mark`. -/
inductive MarkPhase (Loc : Type) where
  | outside
  | tested (loc : Loc)
  | waiting (loc : Loc)
  | entered (loc : Loc)
  | inserted (loc : Loc)

/-- {lit}`marks` is the memory from its first word on, and {lit}`word` what the locations
hold. -/
structure Marking (Pid Loc : Type) where
  marks : Int → Loc
  nmarks : Int
  mkmutex : Turnstile Pid
  word : Loc → Int
  phase : Pid → MarkPhase Loc
  written : List Int
  returned : List Loc

inductive MarkLabel (Pid Loc : Type) where
  | mark (pid : Pid) (loc : Loc)
  | wait (pid : Pid)
  | resume (pid : Pid)
  | insert (pid : Pid)
  | signal (pid : Pid)

namespace Marking

variable {Pid Loc : Type} [DecidableEq Pid] [DecidableEq Loc]

/-- The test of {lit}`mark` for a marked location. -/
def Marked (m : Marking Pid Loc) (loc : Loc) : Prop :=
  0 ≤ m.word loc ∧ m.word loc < m.nmarks ∧ m.marks (m.word loc) = loc

instance (m : Marking Pid Loc) (loc : Loc) : Decidable (m.Marked loc) :=
  inferInstanceAs (Decidable (_ ∧ _ ∧ _))

def setPhase (m : Marking Pid Loc) (pid : Pid) (phase : MarkPhase Loc) : Marking Pid Loc :=
  { m with phase := upd m.phase pid phase }

/-- {lit}`mark` returns {lit}`OK`. -/
def ok (m : Marking Pid Loc) (loc : Loc) : Marking Pid Loc :=
  { m with returned := loc :: m.returned }

/-- {lit}`mark` up to the wait.  A call that finds no more marks returns {lit}`SYSERR`. -/
def mark (m : Marking Pid Loc) (pid : Pid) (loc : Loc) : Marking Pid Loc :=
  if m.Marked loc then m.ok loc
  else if MAXMARK ≤ m.nmarks then m
  else m.setPhase pid (.tested loc)

def wait (m : Marking Pid Loc) (pid : Pid) (loc : Loc) : Marking Pid Loc :=
  let T := m.mkmutex
  { m with mkmutex := T.enter pid }.setPhase pid (if T.Open then .entered loc else .waiting loc)

/-- {lit}`marks[ (*loc) = nmarks++ ] = loc` -/
def insert (m : Marking Pid Loc) (loc : Loc) : Marking Pid Loc :=
  { m with
    word := upd m.word loc m.nmarks
    marks := upd m.marks m.nmarks loc
    nmarks := m.nmarks + 1
    written := m.nmarks :: m.written }

/-- A process that is outside may call {lit}`mark`, and one that is inside goes on. -/
def step (m : Marking Pid Loc) : MarkLabel Pid Loc → Option (Marking Pid Loc)
  | .mark pid loc =>
      match m.phase pid with
      | .outside => some (m.mark pid loc)
      | _ => none
  | .wait pid =>
      match m.phase pid with
      | .tested loc => some (m.wait pid loc)
      | _ => none
  | .resume pid =>
      match m.phase pid with
      | .waiting loc =>
          if pid ∈ m.mkmutex.granted then
            some ({ m with mkmutex := m.mkmutex.resume pid }.setPhase pid (.entered loc))
          else none
      | _ => none
  | .insert pid =>
      match m.phase pid with
      | .entered loc => some ((m.insert loc).setPhase pid (.inserted loc))
      | _ => none
  | .signal pid =>
      match m.phase pid with
      | .inserted loc =>
          some (({ m with mkmutex := m.mkmutex.signal 1 }.setPhase pid .outside).ok loc)
      | _ => none

/-- What {lit}`markinit` leaves.  Nothing is known of the words at the locations, and of what
is in {lit}`marks`. -/
structure Init (m : Marking Pid Loc) : Prop where
  nmarks : m.nmarks = 0
  mkmutex : m.mkmutex = Turnstile.idle 1
  phase : ∀ pid, m.phase pid = .outside
  written : m.written = []
  returned : m.returned = []

end Marking

end BbbXinu
