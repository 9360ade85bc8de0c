import BbbXinu.Kernel.Process
import BbbXinu.Lib.Spans

/-!
# The state of the shell

The kernel with what the {lit}`set` command and the command history keep beside
it.  The nodes of the history and the strings are kept by address.
-/

namespace BbbXinu

/-!
## Strings

{lit}`strncmp`, {lit}`atol` and what is left of a string in a buffer, as the C
library of the system has them.  A string is the list of its characters, and
what comes after the end of the list is read as a null character.
-/

def NULLCH : Char := Char.ofNat 0

/-- Compare at most the given number of characters. -/
def strncmp (s1 s2 : List Char) : Nat → Int
  | 0 => 0
  | n + 1 =>
      let a := s1.headD NULLCH
      let b := s2.headD NULLCH
      if a = b then if a = NULLCH then 0 else strncmp s1.tail s2.tail n
      else (a.toNat : Int) - b.toNat

/-- The characters before the first null character. -/
def cstring (s : List Char) : List Char := s.takeWhile fun c => c ≠ NULLCH

theorem cstring_append_null {s t : List Char} (hs : NULLCH ∉ s) :
    cstring (s ++ NULLCH :: t) = s := by
  have hall : ∀ c ∈ s, decide (c ≠ NULLCH) = true :=
    fun c hc => decide_eq_true fun h => hs (h ▸ hc)
  unfold cstring
  rw [List.takeWhile_append_of_pos hall]
  exact List.append_nil s

/-- What {lit}`strncpy` leaves in a buffer of the given length whose last character
is then set to the null character. -/
def copied (s : List Char) (n : Nat) : List Char := (cstring s).take (n - 1)

/-- The loop of {lit}`atol` over the digits. -/
def atolDigits : Int → List Char → Int
  | n, [] => n
  | n, c :: p =>
      if '0' ≤ c ∧ c ≤ '9' then atolDigits (int32 (n * 10 + c.toNat - '0'.toNat)) p
      else n

def atol (p : List Char) : Int :=
  match p.dropWhile fun c => c = ' ' ∨ c = '\t' with
  | '-' :: p => int32 (-atolDigits 0 p)
  | '+' :: p => atolDigits 0 p
  | p => atolDigits 0 p

/-!
## The state
-/

def ENV_VARS : Nat := 9
def EV_MAX_NAME_LEN : Nat := 30
def EV_MAX_VAL_LEN : Nat := 50
def EV_DEBUG : Nat := 3
def EV_CMDHIST : Nat := 6
def EV_DBGROUP : Nat := 7
def EV_DBLEVEL : Nat := 8
def DBGROUP_STRNUM : Nat := 6
def DBLEVEL_STRNUM : Nat := 5
def DEBUG_ALL : Nat := 0x0FFF
def DEBUG_VERBOSE : Nat := 0xF000
def DEBUG_L1 : Nat := 0x1000
def DEBUG_MASK : Nat := 0x7000
def CMDHIST_MAX : Nat := 100
def NULL : Nat := 0

/-- The size of a {lit}`struct strlist`. -/
def STRLIST_SIZE : Nat := 12

/-- {lit}`struct strlist`; the fields are addresses. -/
structure Strlist where
  str : Nat
  prev : Nat
  next : Nat
  deriving DecidableEq, Repr

/-- A call of the allocator that had an effect: {lit}`getmem` returned the address for the
size, or {lit}`freemem` was given the address and the size. -/
inductive MemCall where
  | got (addr nbytes : Nat)
  | freed (addr nbytes : Nat)
  deriving DecidableEq, Repr

/-- The last two fields record the allocator calls of the history, newest first, and the
blocks that the rest of the system holds. -/
structure Shell where
  xinu : Xinu
  debugMask : Nat
  cmdhistory : Nat
  node : Nat → Strlist
  str : Nat → List Char
  memcalls : List MemCall
  held : List Span

namespace Shell

variable (t : Shell)

/-- The value of an environment variable. -/
def val (i : Nat) : Nat := t.xinu.envtab i

def setXinu (s : Xinu) : Shell := { t with xinu := s }
def setDebugMask (m : Nat) : Shell := { t with debugMask := m }
def setCmdhistory (addr : Nat) : Shell := { t with cmdhistory := addr }
def setNode (addr : Nat) (n : Strlist) : Shell := { t with node := upd t.node addr n }
def setStr (addr : Nat) (s : List Char) : Shell := { t with str := upd t.str addr s }

/-- {lit}`getmem`, with {lit}`SYSERR` as an address. -/
def getmem (nbytes : Nat) : Nat × Shell :=
  let r := t.xinu.mem.getmem (t.val EV_MEMALLOC) nbytes
  let t := t.setXinu (t.xinu.setMem r.2)
  match r.1 with
  | some addr => (addr, { t with memcalls := .got addr nbytes :: t.memcalls })
  | none => (uint32 SYSERR, t)

def freemem (addr nbytes : Nat) : Shell :=
  let t := t.setXinu (t.xinu.setMem (t.xinu.mem.freemem addr nbytes).2)
  { t with memcalls := .freed addr nbytes :: t.memcalls }

end Shell

end BbbXinu
