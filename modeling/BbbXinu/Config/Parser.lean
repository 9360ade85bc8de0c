import BbbXinu.Shell.State

/-!
# The configuration program

{lit}`config.y`: the symbol table, the actions of the grammar in the order in which the parser
takes them, and the tables that {lit}`main` writes.  The declarations are as the scanner and the
grammar leave them.

A pointer to a name is the index of its symbol, and the two lists are in their order.  A search of
the types that goes through all of them goes on where the last one's {lit}`next` points to, which
is whatever was in the memory that {lit}`malloc` returned: {lit}`mktype` does not set it.
-/

namespace BbbXinu
namespace Config

def CONFMAXNM : Nat := 24

/-- The length of {lit}`symtab`. -/
def symtabSize : Nat := 250

/-!
## Declarations
-/

/-- What the scanner takes for an identifier. -/
def isIdent : List Char → Bool
  | [] => false
  | c :: s => (c.isAlpha || c = '_') && s.all fun c => c.isAlphanum || c = '_'

structure Ident where
  text : List Char
  wellFormed : isIdent text

/-- The routines of a device, in the order of {lit}`struct dev_ent`. -/
inductive Routine where
  | intr
  | init
  | «open»
  | close
  | read
  | write
  | control
  | seek
  | getc
  | putc
  deriving DecidableEq, Repr

inductive Attr where
  | csr (number : List Char)
  | irq (number : List Char)
  | routine (r : Routine) (id : Ident)

/-- {lit}`devheader attr_list`. -/
structure OnDecl where
  device : Ident
  attrs : List Attr

/-- A type, with one declaration of a device at least. -/
structure TypeDecl where
  name : Ident
  first : OnDecl
  more : List OnDecl

structure DevDecl where
  name : Ident
  type : Ident
  on : Option Ident
  attrs : List Attr

structure Configuration where
  types : List TypeDecl
  devices : List DevDecl

/-!
## Entries
-/

/-- A field of {lit}`CONFMAXNM` characters. -/
abbrev Field := Fin CONFMAXNM → Char

def strncpy (dst : Field) (src : List Char) (n : Nat) : Field :=
  fun i => if i < n then src.getD i NULLCH else dst i

structure SymEnt where
  name : List Char
  occurs : Nat

/-- {lit}`struct dev_ent` without {lit}`next`. -/
structure DevEnt where
  name : Option Nat
  tname : Nat
  tnum : Nat
  device : Nat
  csr : Int
  irq : Int
  routine : Routine → Field
  minor : Nat

/-- The memory that {lit}`malloc` returns for an entry, as far as it is not set. -/
structure Fresh where
  next : Nat
  routine : Routine → Field

/-- Memory with nothing in it. -/
def Fresh.zero : Fresh where
  next := 0
  routine := fun _ _ => NULLCH

/-- The global variables.  {lit}`tail` is the {lit}`next` of the last type. -/
structure State where
  symtab : List SymEnt
  ftypes : List DevEnt
  tail : Nat
  devs : List DevEnt
  currtname : Nat

def State.start : State where
  symtab := []
  ftypes := []
  tail := 0
  devs := []
  currtname := 0

/-- The program exits, or it does something undefined. -/
inductive Stop where
  | exit (s : State)
  | undefined

/-!
## Names and numbers
-/

def lookup (str : List Char) (s : State) : Except Stop (Nat × State) :=
  let str := str.take (CONFMAXNM - 1)
  match s.symtab.findIdx? fun e => strncmp str e.name CONFMAXNM = 0 with
  | some i => .ok (i, s)
  | none =>
      if s.symtab.length < symtabSize then
        .ok (s.symtab.length, { s with symtab := s.symtab ++ [⟨str, 0⟩] })
      else .error .undefined

def digit (c : Char) : Int :=
  if '0' ≤ c ∧ c ≤ '9' then c.toNat - '0'.toNat
  else if 'A' ≤ c ∧ c ≤ 'Z' then c.toNat - 'A'.toNat + 10
  else c.toNat - 'a'.toNat + 10

/-- The loop of {lit}`config_atoi`. -/
def atoiLoop (base : Int) (rv : Int) (p : List Char) : Int :=
  p.foldl (fun rv c => int32 (int32 (rv * base) + digit c)) rv

def configAtoi : List Char → Int
  | '0' :: 'x' :: p => atoiLoop 16 0 p
  | '0' :: 'X' :: p => atoiLoop 16 0 p
  | '0' :: p => atoiLoop 8 0 p
  | p => atoiLoop 10 0 p

/-!
## Types
-/

/-- A search of the list of types. -/
def searchTypes (p : DevEnt → Bool) (s : State) : Except Stop (Option DevEnt) :=
  match s.ftypes.find? p with
  | some e => .ok (some e)
  | none => if s.tail = 0 then .ok none else .error .undefined

def cktname (symid : Nat) (s : State) : Except Stop Nat := do
  match ← searchTypes (fun e => e.tname = symid) s with
  | some _ => .error (.exit s)
  | none => .ok symid

def ioerr : List Char := ['i', 'o', 'e', 'r', 'r']

def initattr (fresh : Fresh) (tnum deviceid : Nat) : DevEnt where
  name := none
  tname := tnum
  tnum := tnum
  device := deviceid
  csr := 0
  irq := 0
  routine := fun r => strncpy (fresh.routine r) ioerr 5
  minor := 0

def mktype (fresh : Fresh) (deviceid : Nat) (s : State) : Except Stop State := do
  match ← searchTypes (fun e => e.tname = s.currtname ∧ e.device = deviceid) s with
  | some _ => .error (.exit s)
  | none =>
      .ok { s with
        ftypes := s.ftypes ++ [initattr fresh s.currtname deviceid]
        tail := fresh.next }

/-!
## Attributes
-/

inductive Tok where
  | csr
  | irq
  | routine (r : Routine)

/-- The assignments of {lit}`newattr`; a missing name is a null pointer. -/
def DevEnt.assign (tok : Tok) (val : Int) (c : Option (List Char)) (e : DevEnt) :
    Option DevEnt :=
  match tok, c with
  | .csr, _ => some { e with csr := val }
  | .irq, _ => some { e with irq := val }
  | .routine _, none => none
  | .routine r, some c =>
      some { e with routine := upd e.routine r (strncpy (e.routine r) c CONFMAXNM) }

/-- An assignment to the last entry of a list. -/
def assignLast (tok : Tok) (val : Int) (c : Option (List Char)) (l : List DevEnt) :
    Option (List DevEnt) := do
  let e ← l.getLast?
  let e ← e.assign tok val c
  some (l.dropLast ++ [e])

def strnlen (s : List Char) (n : Nat) : Nat := min (cstring s).length n

def newattr (tok : Tok) (val : Int) (s : State) : Except Stop State :=
  let c := if 0 ≤ val then s.symtab[val.toNat]?.map SymEnt.name else none
  if (c.map fun c => strnlen c CONFMAXNM) = some CONFMAXNM then .error (.exit s)
  else
    let s' :=
      if s.devs = [] then
        (assignLast tok val c s.ftypes).map fun l => { s with ftypes := l }
      else (assignLast tok val c s.devs).map fun l => { s with devs := l }
    match s' with
    | some s' => .ok s'
    | none => .error .undefined

/-!
## Devices
-/

def ckdname (devid : Nat) (s : State) : Except Stop Nat :=
  if s.devs.any fun e => e.name = some devid then .error (.exit s) else .ok devid

def mkdev (nameid typid : Nat) (deviceid : Int) (s : State) : Except Stop State := do
  let dn : Option Nat := if 0 ≤ deviceid then some deviceid.toNat else none
  match ← searchTypes (fun e => e.tname = typid ∧ (dn = none ∨ some e.device = dn)) s with
  | none => .error (.exit s)
  | some e => .ok { s with devs := s.devs ++ [{ e with name := some nameid }] }

/-!
## The grammar
-/

def attr (a : Attr) (s : State) : Except Stop State :=
  match a with
  | .csr number => newattr .csr (configAtoi number) s
  | .irq number => newattr .irq (configAtoi number) s
  | .routine r id => do
      let (i, s) ← lookup id.text s
      newattr (.routine r) i s

def attrList (attrs : List Attr) (s : State) : Except Stop State :=
  attrs.foldlM (fun s a => attr a s) s

/-- {lit}`devheader attr_list`; the memory depends on the number of types so far. -/
def onDecl (fresh : Nat → Fresh) (d : OnDecl) (s : State) : Except Stop State := do
  let (i, s) ← lookup d.device.text s
  let s ← mktype (fresh s.ftypes.length) i s
  attrList d.attrs s

def tname (id : Ident) (s : State) : Except Stop State := do
  let (i, s) ← lookup id.text s
  let i ← cktname i s
  .ok { s with currtname := i }

def ftype (fresh : Nat → Fresh) (t : TypeDecl) (s : State) : Except Stop State := do
  let s ← tname t.name s
  (t.first :: t.more).foldlM (fun s d => onDecl fresh d s) s

def optionalOn (on : Option Ident) (s : State) : Except Stop (Int × State) :=
  match on with
  | none => .ok (0, s)
  | some id => do
      let (i, s) ← lookup id.text s
      .ok ((i : Int), s)

def fspec (d : DevDecl) (s : State) : Except Stop State := do
  let (i, s) ← lookup d.name.text s
  let nameid ← ckdname i s
  let (typid, s) ← lookup d.type.text s
  let (deviceid, s) ← optionalOn d.on s
  mkdev nameid typid deviceid s

def descriptor (d : DevDecl) (s : State) : Except Stop State := do
  let s ← fspec d s
  attrList d.attrs s

/-- {lit}`yyparse`. -/
def yyparse (fresh : Nat → Fresh) (c : Configuration) : Except Stop State := do
  let s ← c.types.foldlM (fun s t => ftype fresh t s) State.start
  c.devices.foldlM (fun s d => descriptor d s) s

/-!
## The tables
-/

/-- The routines from one of them on. -/
def Routine.behind (r : Routine) : List Routine :=
  [.intr, .init, .open, .close, .read, .write, .control, .seek, .getc, .putc].dropWhile (· ≠ r)

/-- The name of a routine as it is printed.  Without a null character it runs on into the fields
behind it. -/
def printed (f : Routine → Field) (r : Routine) : List Char :=
  cstring (r.behind.flatMap fun q => List.ofFn (f q))

/-- An entry of {lit}`devtab`, with the type that stands in the comment. -/
structure Row where
  number : Nat
  minor : Nat
  name : List Char
  type : List Char
  routine : Routine → List Char
  csr : Int
  irq : Int

/-- What is written to {lit}`conf.h` and {lit}`conf.c`. -/
structure Tables where
  defines : List (List Char × Nat × List Char)
  sizes : List (List Char × Nat)
  ndevs : Nat
  devtab : List Row

/-- The name of a symbol. -/
def symName (symtab : List SymEnt) (i : Nat) : List Char :=
  (symtab[i]?.map SymEnt.name).getD []

/-- The loop of {lit}`main` that counts the devices of the types. -/
def setMinors : List DevEnt → List SymEnt → List DevEnt × List SymEnt
  | [], symtab => ([], symtab)
  | e :: devs, symtab =>
      let occurs := (symtab[e.tnum]?.map SymEnt.occurs).getD 0
      let r := setMinors devs (symtab.modify e.tnum fun x => { x with occurs := x.occurs + 1 })
      ({ e with minor := occurs } :: r.1, r.2)

def row (symtab : List SymEnt) (number : Nat) (e : DevEnt) : Row where
  number := number
  minor := e.minor
  name := (e.name.map (symName symtab)).getD []
  type := symName symtab e.tname
  routine := printed e.routine
  csr := e.csr
  irq := e.irq

/-- The output of {lit}`main`. -/
def generate (s : State) : Tables :=
  let r := setMinors s.devs s.symtab
  let devtab := r.1.zipIdx.map fun e => row r.2 e.2 e.1
  { defines := devtab.map fun e => (e.name, e.number, e.type)
    sizes := (r.2.filter fun x => 0 < x.occurs).map fun x =>
      (x.name.take (CONFMAXNM - 1), x.occurs)
    ndevs := s.devs.length
    devtab := devtab }

/-- {lit}`main`, with the state at the end of the declarations. -/
def config (fresh : Nat → Fresh) (c : Configuration) : Except Stop (State × Tables) := do
  let s ← yyparse fresh c
  .ok (s, generate s)

end Config
end BbbXinu
