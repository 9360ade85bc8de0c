import BbbXinu.Shell.State
import BbbXinu.Properties.Allocator

/-!
# The command history and the environment

The three routines of {lit}`shell.c` and {lit}`set_cmdhistory` of {lit}`sets.c`.
The list is an array of nodes; {lit}`cmdhistory` is the newest one, and
{lit}`prev` leads from each node to the next older one.
-/

namespace BbbXinu

namespace Shell

/-- The loop of {lit}`cmdhistoryinit` with the last node after it: the given number of nodes
follow {lit}`tmpcmdhist`. -/
def cmdhistoryinitLoop : Nat → Nat → Nat → Shell → Shell
  | 0, tmpcmdhist, next, t => t.setNode tmpcmdhist { str := NULL, prev := NULL, next := next }
  | n + 1, tmpcmdhist, next, t =>
      cmdhistoryinitLoop n (tmpcmdhist + STRLIST_SIZE) tmpcmdhist
        (t.setNode tmpcmdhist
          { str := NULL, prev := tmpcmdhist + STRLIST_SIZE, next := next })

def cmdhistoryinit (t : Shell) : Shell :=
  let histval := t.val EV_CMDHIST
  if 0 < histval ∧ histval ≤ CMDHIST_MAX then
    let r := t.getmem (STRLIST_SIZE * histval)
    if r.1 = uint32 SYSERR then r.2.setCmdhistory NULL
    else cmdhistoryinitLoop (histval - 1) r.1 NULL (r.2.setCmdhistory r.1)
  else t

/-- The loop of {lit}`cmdhistorydel` that frees the strings.  No list has more than
{lit}`CMDHIST_MAX` nodes. -/
def freeStrings : Nat → Nat → Shell → Shell
  | 0, _, t => t
  | fuel + 1, tmpcmdhist, t =>
      if tmpcmdhist ≠ NULL then
        let e := t.node tmpcmdhist
        let t :=
          if e.str ≠ NULL then
            (t.freemem e.str ((t.str e.str).length + 1)).setNode tmpcmdhist
              { e with str := NULL }
          else t
        freeStrings fuel e.prev t
      else t

def cmdhistorydel (t : Shell) : Shell :=
  if t.cmdhistory ≠ NULL then
    let t := freeStrings CMDHIST_MAX t.cmdhistory t
    (t.freemem t.cmdhistory (uint32 (STRLIST_SIZE * t.val EV_CMDHIST))).setCmdhistory NULL
  else t

/-- The loop of {lit}`cmdhistoryadd`: each string moves to the next older node.  The result is
the string that is left over. -/
def bump : Nat → Nat → Nat → Shell → Nat × Shell
  | 0, _, newcmd, t => (newcmd, t)
  | fuel + 1, tmpcmd, newcmd, t =>
      if tmpcmd ≠ NULL ∧ newcmd ≠ NULL then
        let e := t.node tmpcmd
        bump fuel e.prev e.str (t.setNode tmpcmd { e with str := newcmd })
      else (newcmd, t)

def cmdhistoryadd (t : Shell) (buf : List Char) (len : Nat) : Shell :=
  let r := t.getmem (uint32 (len + 1))
  let t := r.2.setStr r.1 (cstring (buf.take len))
  let r := bump CMDHIST_MAX t.cmdhistory r.1 t
  if r.1 ≠ NULL then r.2.freemem r.1 ((r.2.str r.1).length + 1) else r.2

def setCmdhist (t : Shell) (newval : Nat) : Shell :=
  let oldval := t.val EV_CMDHIST
  if oldval ≠ newval then
    let t := t.cmdhistorydel
    -- the list is built before the variable changes
    let t := if newval ≠ 0 then t.cmdhistoryinit else t
    t.setXinu ((t.xinu.setEnv EV_CMDHIST newval).ret OK)
  else t.setXinu (t.xinu.ret OK)

end Shell

/-!
## Environment variables

The table of {lit}`initialize.c`, the setters of {lit}`sets.c`,
{lit}`setenv.c` and the {lit}`set` command of {lit}`xsh_set.c`.  A setter that
never returns has no result.
-/

/-- What the table says about a variable apart from its value. -/
structure Envvar where
  name : List Char
  vals : List (List Char)

def Envvar.valcount (v : Envvar) : Nat := v.vals.length

/-- The variables of {lit}`envtab`, in order. -/
def envvar : Nat → Envvar
  | 0 => ⟨"environment".toList, []⟩
  | 1 => ⟨"scheduler".toList,
      ["priority".toList, "shortest-job-first".toList, "random".toList]⟩
  | 2 => ⟨"cpuqdata".toList, ["no".toList, "yes".toList]⟩
  | 3 => ⟨"debug".toList, ["no".toList, "yes".toList]⟩
  | 4 => ⟨"dtimer".toList, []⟩
  | 5 => ⟨"memalloc".toList, ["first-fit".toList, "best-fit".toList]⟩
  | 6 => ⟨"cmdhistory".toList, []⟩
  | 7 => ⟨"dbgroup".toList,
      ["none".toList, "scheduler".toList, "memalloc".toList, "shell".toList,
        "rwblocker".toList, "all".toList]⟩
  | _ => ⟨"dblevel".toList,
      ["none".toList, "error".toList, "warning".toList, "info".toList, "verbose".toList]⟩

namespace Shell

/-- The loop of {lit}`set_dblevel` over {lit}`i = 1, ..., newval`. -/
def lvlmask : Nat → Nat
  | 0 => 0
  | i + 1 => uint16 (lvlmask i + DEBUG_L1 * 2 ^ (i + 1))

def setDblevel (t : Shell) (newval : Nat) : Option Shell :=
  let oldval := t.val EV_DBLEVEL
  if oldval ≠ newval then
    -- the test i <= newval never fails for the largest unsigned value
    if newval = uint32 SYSERR then none
    else
      let t := t.setDebugMask ((t.debugMask - (t.debugMask &&& DEBUG_VERBOSE)) ||| lvlmask newval)
      some (t.setXinu ((t.xinu.setEnv EV_DBLEVEL newval).ret OK))
  else some (t.setXinu (t.xinu.ret OK))

def grpmask (newval : Nat) : Nat :=
  if 2 < newval then
    if DBGROUP_STRNUM - 1 ≤ newval then DEBUG_ALL else uint16 (2 ^ (newval - 1) : Nat)
  else newval

def setDbgroup (t : Shell) (newval : Nat) : Shell :=
  let oldval := t.val EV_DBGROUP
  if oldval ≠ newval then
    let t := t.setDebugMask ((t.debugMask - (t.debugMask &&& DEBUG_ALL)) ||| grpmask newval)
    t.setXinu ((t.xinu.setEnv EV_DBGROUP newval).ret OK)
  else t.setXinu (t.xinu.ret OK)

def setenv (t : Shell) (var val : Nat) : Option Shell :=
  if ENV_VARS ≤ var then some (t.setXinu (t.xinu.ret SYSERR))
  else if var = EV_SCHEDULER then some (t.setXinu (t.xinu.setScheduler val))
  else if var = EV_CPUQDATA then some (t.setXinu (t.xinu.setCpuqdata val))
  else if var = EV_CMDHIST then some (t.setCmdhist val)
  else if var = EV_DBGROUP then some (t.setDbgroup val)
  else if var = EV_DBLEVEL then t.setDblevel val
  else some (t.setXinu ((t.xinu.setEnv var val).ret OK))

/-- The variable of the given name; the loop keeps the last one that matches. -/
def findvar (name : List Char) : Option Nat :=
  (List.range ENV_VARS).foldl (fun ivar i =>
    if strncmp (envvar i).name name EV_MAX_NAME_LEN = 0 then some i else ivar) none

/-- The number that the text stands for: what {lit}`atol` makes of it, or the alias that it
names. -/
def intval (i : Nat) (strval : List Char) : Nat :=
  let valcount := (envvar i).valcount
  let intval := uint32 (atol strval)
  if valcount ≠ 0 ∧ strncmp strval ['0'] 1 ≠ 0 ∧ intval = 0 then
    (List.range valcount).foldl (fun intval k =>
      if strncmp strval ((envvar i).vals.getD k []) EV_MAX_VAL_LEN = 0 then k else intval)
      intval
  else intval

/-- The value that is passed to {lit}`setenv`. -/
def setval (i : Nat) (strval : List Char) : Nat :=
  let intval := intval i strval
  if (envvar i).valcount ≠ 0 ∧ (envvar i).valcount ≤ intval then uint32 SYSERR else intval

/-- The {lit}`set` command, less what it prints. -/
def xshSet (t : Shell) (args : List (List Char)) : Option Shell :=
  match args with
  | [_, name, eq, value] =>
      if strncmp eq ['='] 1 = 0 then
        match findvar name with
        | some ivar => t.setenv ivar (setval ivar (copied value EV_MAX_VAL_LEN))
        | none => some t
      else some t
  | _ => some t

/-- The index into the named values with which the command lists a variable: the list at
the end has no index when it writes nothing or {lit}`INVALID`. -/
def listed (t : Shell) (i : Nat) : Option Nat :=
  let ival := t.val i
  if (envvar i).valcount < 1 then none
  else if (envvar i).valcount < ival then none
  else some ival

/-- The index with which the command shows the variable that it is asked for. -/
def shown (t : Shell) (i : Nat) : Option Nat :=
  let ival := t.val i
  if (envvar i).valcount ≠ 0 ∧ ival < (envvar i).valcount then some ival else none

end Shell

end BbbXinu

/-!
# The shell's machine

Steps of the kernel, {lit}`set` commands, command lines that are added to the
history, and calls of the allocator by the rest of the system, in any order.
The commands run in user code.
-/

namespace BbbXinu

inductive ShellCall where
  | set (args : List (List Char))
  | add (buf : List Char)
  | kernel (l : Label)
  | heap (c : HeapCall)

namespace Shell

/-- The running process is outside the kernel, and the machine runs. -/
def inUser (t : Shell) : Prop := t.xinu.halted = false ∧ t.xinu.inUser

instance (t : Shell) : Decidable t.inUser := inferInstanceAs (Decidable (_ ∧ _))

/-- The heap as the rest of the system sees it. -/
def heap (t : Shell) : Heap := { mem := t.xinu.mem, allocated := t.held }

def setHeap (t : Shell) (h : Heap) : Shell :=
  { t.setXinu (t.xinu.setMem h.mem) with held := h.allocated }

def step (t : Shell) : ShellCall → Option Shell
  | .set args => if t.inUser then t.xshSet args else none
  | .add buf => if t.inUser then some (t.cmdhistoryadd buf buf.length) else none
  | .kernel l => (t.xinu.step l).map t.setXinu
  | .heap c => (t.heap.step c).map t.setHeap

end Shell

end BbbXinu
