import BbbXinu.Lib.CStrings
import BbbXinu.Net.Packet
import BbbXinu.Shell.Children
import BbbXinu.Shell.Lexan

/-!
# The loop of the shell

The part of {lit}`shell.c` between the analyzer and the command.  The shell works backwards
from the end of the list of tokens: it takes off the ampersand, then at most two
redirections, and what is left must be words.  Pointers into {lit}`tokbuf` are indices.
-/

namespace BbbXinu

/-- The variables of the shell that describe the command. -/
structure Command where
  ntok : Nat
  tlen : Nat
  backgnd : Bool
  inname : Option Nat
  outname : Option Nat
  deriving DecidableEq, Repr

/-- What the shell does next with a line. -/
inductive Parse where
  | empty
  | syntaxError
  | lookup (c : Command)
  deriving DecidableEq, Repr

namespace Lex

variable (L : Lex)

/-- Whether an entry of {lit}`toktyp` has a value. -/
def isType (i : Nat) (typ : ShTok) : Prop := L.toktyp[i]? = some typ

instance (i : Nat) (typ : ShTok) : Decidable (L.isType i typ) :=
  inferInstanceAs (Decidable (_ = _))

def start (i : Nat) : Nat := L.tok.getD i 0

/-- If the last token is an ampersand, set background. -/
def background : Command :=
  if L.isType (L.ntok - 1) .amper then
    { ntok := L.ntok - 1, tlen := L.tlen - 2, backgnd := true, inname := none, outname := none }
  else { ntok := L.ntok, tlen := L.tlen, backgnd := false, inname := none, outname := none }

/-- The test for a redirection at the end. -/
def redirected (c : Command) : Prop :=
  3 ≤ c.ntok ∧ (L.isType (c.ntok - 2) .less ∨ L.isType (c.ntok - 2) .greater)

instance (c : Command) : Decidable (L.redirected c) := inferInstanceAs (Decidable (_ ∧ _))

/-- The operator and the file name are taken off. -/
def shorten (c : Command) : Command :=
  { c with ntok := c.ntok - 2, tlen := L.start (c.ntok - 2) }

/-- The first check for a redirection. -/
def redirect (c : Command) : Option Command :=
  if L.redirected c then
    if ¬L.isType (c.ntok - 1) .other then none
    else if L.isType (c.ntok - 2) .less then
      some { L.shorten c with inname := some (L.start (c.ntok - 1)) }
    else some { L.shorten c with outname := some (L.start (c.ntok - 1)) }
  else some c

/-- The second check.  The same name must not be given twice. -/
def redirectAgain (c : Command) : Option Command :=
  if L.redirected c then
    if ¬L.isType (c.ntok - 1) .other then none
    else if L.isType (c.ntok - 2) .less then
      if c.inname ≠ none then none
      else some { L.shorten c with inname := some (L.start (c.ntok - 1)) }
    else
      if c.outname ≠ none then none
      else some { L.shorten c with outname := some (L.start (c.ntok - 1)) }
  else some c

/-- From the tokens to the lookup of the command. -/
def parse : Parse :=
  if L.ntok = 0 then .empty
  else
    match L.redirect L.background with
    | none => .syntaxError
    | some c =>
        match L.redirectAgain c with
        | none => .syntaxError
        | some c =>
            if c.ntok = 0 ∨ ∃ i < c.ntok, ¬L.isType i .other then .syntaxError else .lookup c

end Lex

/-!
## Executing a command

The stack that {lit}`create.c` prepares for a new process, and {lit}`addargs.c`, which puts
the arguments of a command at the low end of that stack and replaces the dummy argument by
their address.  Memory is kept byte by byte.
-/

open Net

abbrev Memory : Type := Nat → UInt8

/-- The fields of the process table entry that say where the stack is, and the memory. -/
structure Child where
  prstkbase : Nat
  prstklen : Nat
  prstkptr : Nat
  mem : Memory

def STACKMAGIC : UInt32 := 0x0A0AAAA9

namespace Child

/-- {lit}`*--saddr = w`, with {lit}`prstkptr` for {lit}`saddr`. -/
def push (c : Child) (w : UInt32) : Child :=
  { c with prstkptr := c.prstkptr - 4, mem := set32 c.mem (c.prstkptr - 4) w }

def pushAll (c : Child) (words : List UInt32) : Child := words.foldl push c

/-- What {lit}`create` pushes: the arguments from the fifth on, the address of the
procedure, the registers from {lit}`r11` down to {lit}`r0` with the first four arguments,
the return address and the processor status. -/
def frame (procaddr initret : UInt32) (args : List UInt32) : List UInt32 :=
  (args.drop 4).reverse ++ [procaddr] ++ List.replicate 8 0 ++
    [args.getD 3 0, args.getD 2 0, args.getD 1 0, args.getD 0 0] ++ [initret, 0x53]

/-- The part of {lit}`create` that prepares the stack. -/
def create (mem : Memory) (saddr ssize : Nat) (procaddr initret : UInt32) (args : List UInt32) :
    Child :=
  pushAll
    { prstkbase := saddr
      prstklen := ssize
      prstkptr := saddr
      mem := set32 mem saddr STACKMAGIC }
    (frame procaddr initret args)

/-- The loop that sets the locations of the vector. -/
def storeArgs (mem : Memory) (argloc argstr : Nat) (tok : Nat → Nat) : Nat → Memory
  | 0 => mem
  | i + 1 =>
      set32 (storeArgs mem argloc argstr tok i) (argloc + 4 * i) (UInt32.ofNat (argstr + tok i))

/-- The loop that searches for the dummy argument. -/
def search (mem : Memory) (dummy : UInt32) (prstkbase : Nat) : Nat → Nat → Option Nat
  | 0, _ => none
  | fuel + 1, place =>
      if place < prstkbase then
        if get32 mem place = dummy then some place else search mem dummy prstkbase fuel (place + 4)
      else none

/-- A character as it is kept in memory. -/
def byte (c : Char) : UInt8 := UInt8.ofNat c.toNat

def addargs (c : Child) (ntok : Int) (tok : Nat → Nat) (tlen : Int) (tokbuf : List Char)
    (dummy : UInt32) : Int × Child :=
  if ntok ≤ 0 ∨ tlen < 0 then (SYSERR, c)
  else
    let aloc := uint32 ((c.prstkbase : Int) - c.prstklen + 4)
    let argloc := roundew aloc
    let argstr := argloc + 4 * (ntok.toNat + 1)
    let mem := storeArgs c.mem argloc argstr tok ntok.toNat
    let mem := set32 mem (argloc + 4 * ntok.toNat) 0
    let mem := CStrings.copy mem argstr (fun i => byte (tokbuf.getD i NULLCH)) 0 tlen.toNat
    match search mem dummy c.prstkbase (c.prstkbase - c.prstkptr) c.prstkptr with
    | some place => (OK, { c with mem := set32 mem place (UInt32.ofNat argloc) })
    | none => (SYSERR, { c with mem })

end Child

/-!
## The end of the shell's loop

From the lookup of the command to its process.  What {lit}`open` returns for a name and a
mode is given; the {lit}`control` that truncates an output file leaves it open, and is left
out.
-/

/-- {lit}`struct cmdent`. -/
structure CmdEnt where
  cname : List Char
  cbuiltin : Bool
  cfunc : UInt32

/-- What the shell finds: its table of commands, the results of {lit}`open`, the address to
which a process returns, and the address of its variable {lit}`tmparg`. -/
structure ShellEnv where
  cmdtab : List CmdEnt
  opens : List Char → List Char → Int
  initret : UInt32
  tmparg : UInt32

/-- The system while the shell works on a line, with the devices opened and the processes
created for the line. -/
structure LineState where
  xinu : Xinu
  mem : Memory
  opened : List Int
  created : List Int

/-- What the shell answers to a line. -/
inductive Answer where
  | synerr | empty | notFound | bgerr | builtin | inerr | outerr | creatmsg
  | started (child stdinput stdoutput : Int)
  deriving DecidableEq, Repr

def Answer.IsError : Answer → Prop
  | .synerr | .notFound | .bgerr | .inerr | .outerr | .creatmsg => True
  | .empty | .builtin | .started _ _ _ => False

instance (a : Answer) : Decidable a.IsError := by
  induction a using Answer.casesOn <;> unfold Answer.IsError <;> infer_instance

/-- The loop that compares the name of a command with the first token. -/
def sameCommand : List Char → List Char → Bool
  | [], cmp => cmp.headD NULLCH = NULLCH
  | src :: rest, cmp => if cmp.headD NULLCH ≠ src then false else sameCommand rest cmp.tail

namespace LineState

/-- Open a file for the line. -/
def openFile (t : LineState) (env : ShellEnv) (name mode : List Char) : Int × LineState :=
  let did := env.opens name mode
  (did, if did = SYSERR then t else { t with opened := did :: t.opened })

/-- Create the process of the command and give it its arguments. -/
def spawn (t : LineState) (env : ShellEnv) (L : Lex) (c : Command) (e : CmdEnt) :
    Int × LineState :=
  let xinu := t.xinu.create SHELL_CMDSTK SHELL_CMDPRIO
  let child := xinu.retval t.xinu.currpid
  if child = SYSERR then (SYSERR, { t with xinu })
  else
    let prptr := xinu.proctab child
    let stack := Child.create t.mem prptr.prstkbase prptr.prstklen e.cfunc env.initret
      [UInt32.ofNat c.ntok, env.tmparg]
    let r := stack.addargs c.ntok L.start c.tlen L.tokbuf env.tmparg
    (if r.1 = SYSERR then SYSERR else child,
      { t with xinu, mem := r.2.mem, created := child :: t.created })

/-- From the redirection of the output to the process. -/
def outputAndSpawn (t : LineState) (env : ShellEnv) (dev stdinput : Int) (L : Lex) (c : Command)
    (e : CmdEnt) : Answer × LineState :=
  let output :=
    match c.outname with
    | some name => t.openFile env (cstring (L.tokbuf.drop name)) ['w']
    | none => (dev, t)
  if c.outname ≠ none ∧ output.1 = SYSERR then (.outerr, output.2)
  else
    let child := output.2.spawn env L c e
    if child.1 = SYSERR then (.creatmsg, child.2)
    else (.started child.1 stdinput output.1, child.2)

/-- From the redirection of the input on. -/
def redirectAndSpawn (t : LineState) (env : ShellEnv) (dev : Int) (L : Lex) (c : Command)
    (e : CmdEnt) : Answer × LineState :=
  let input :=
    match c.inname with
    | some name => t.openFile env (cstring (L.tokbuf.drop name)) ['r', 'o']
    | none => (dev, t)
  if c.inname ≠ none ∧ input.1 = SYSERR then (.inerr, input.2)
  else input.2.outputAndSpawn env dev input.1 L c e

/-- From the lookup of the command on. -/
def execute (t : LineState) (env : ShellEnv) (dev : Int) (L : Lex) (c : Command) :
    Answer × LineState :=
  match env.cmdtab.find? fun e => sameCommand e.cname L.tokbuf with
  | none => (.notFound, t)
  | some e =>
      if e.cbuiltin then
        if c.inname ≠ none ∨ c.outname ≠ none ∨ c.backgnd then (.bgerr, t) else (.builtin, t)
      else t.redirectAndSpawn env dev L c e

end LineState

/-- One turn of the shell's loop, up to the start of the command. -/
def shellLine (env : ShellEnv) (dev : Int) (xinu : Xinu) (mem : Memory) (line : List Char) :
    Answer × LineState :=
  let t : LineState := { xinu, mem, opened := [], created := [] }
  match lexan line with
  | none => (.synerr, t)
  | some L =>
      match L.parse with
      | .empty => (.empty, t)
      | .syntaxError => (.synerr, t)
      | .lookup c => t.execute env dev L c

end BbbXinu
