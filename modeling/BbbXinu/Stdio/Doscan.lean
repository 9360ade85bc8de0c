import BbbXinu.Stdio.Doprnt

/-!
# Formatted input

{lit}`doscan.c` for a string, with {lit}`sgetch` and {lit}`sungetch` of {lit}`sscanf.c`.  A format
has its null character at the end of the list, and a read behind it gives nothing, as does an
index outside of {lit}`_sctab`.  A {lit}`char` is unsigned.

{lit}`sscanf` takes its second and later pointers from behind its last parameter; here the words
there are the pointers.  What {lit}`_innum` puts into {lit}`numbuf` is only counted.
-/

namespace BbbXinu
namespace Stdio

/-!
## Characters
-/

/-- The end of the input. -/
def scanEOF : Int := -2

def code (c : Char) : Int := c.toNat

/-- The cast of a character or of the end of the input to {lit}`char`. -/
def unsignedChar (x : Int) : Int := x % 256

def CT_U : Nat := 0x01
def CT_L : Nat := 0x02
def CT_N : Nat := 0x04
def CT_S : Nat := 0x08
def CT_P : Nat := 0x10
def CT_C : Nat := 0x20
def CT_X : Nat := 0x40

/-- {lit}`_ctype_`. -/
def ctype_ : List Nat :=
  0 :: List.replicate 8 CT_C ++ [CT_C, CT_S, CT_S, CT_S, CT_S, CT_S, CT_C, CT_C] ++
    List.replicate 16 CT_C ++ CT_S :: List.replicate 15 CT_P ++ List.replicate 10 CT_N ++
    List.replicate 7 CT_P ++ List.replicate 6 (CT_U ||| CT_X) ++ List.replicate 20 CT_U ++
    List.replicate 5 CT_P ++ CT_P :: List.replicate 6 (CT_L ||| CT_X) ++ List.replicate 20 CT_L ++
    List.replicate 4 CT_P ++ [CT_C]

/-- An entry of {lit}`_ctype_`, or a byte behind it. -/
def ctypeAt (behind : Nat → Nat) (c : Int) : Nat :=
  ctype_.getD (c + 1).toNat (behind (c + 1).toNat)

def isdigit (behind : Nat → Nat) (c : Int) : Bool := ctypeAt behind c &&& CT_N ≠ 0

def isupper (behind : Nat → Nat) (c : Int) : Bool := ctypeAt behind c &&& CT_U ≠ 0

def tolower (c : Int) : Int := c - 'A'.toNat + 'a'.toNat

def isBlank (c : Char) : Bool := c = ' ' ∨ c = '\t' ∨ c = '\n'

/-!
## The input
-/

/-- The bytes before the pointer, the nearest one first, and those from the pointer to the end of
the string. -/
structure ScanInput where
  before : Nat → Char
  rest : List Char

namespace ScanInput

/-- One byte more before the pointer. -/
def push (c : Char) (before : Nat → Char) : Nat → Char
  | 0 => c
  | n + 1 => before n

/-- {lit}`sgetch`. -/
def getch (s : ScanInput) : Int × ScanInput :=
  match s.rest with
  | [] => (scanEOF, s)
  | c :: rest => if c = NULLCH then (scanEOF, s) else (code c, ⟨push c s.before, rest⟩)

/-- {lit}`sungetch`, which moves back also when nothing was read. -/
def ungetch (s : ScanInput) : ScanInput where
  before := fun n => s.before (n + 1)
  rest := s.before 0 :: s.rest

/-- The loop over blanks, with the character that ended it. -/
def skipLoop : List Char → (Nat → Char) → Int × ScanInput
  | [], before => (scanEOF, ⟨before, []⟩)
  | c :: rest, before =>
      if c = NULLCH then (scanEOF, ⟨before, c :: rest⟩)
      else if isBlank c then skipLoop rest (push c before)
      else (code c, ⟨push c before, rest⟩)

def skip (s : ScanInput) : Int × ScanInput := skipLoop s.rest s.before

end ScanInput

/-!
## The character table
-/

def SPC : Nat := 1
def STP : Nat := 2

/-- The entries of {lit}`_sctab`. -/
abbrev Sctab := Nat → Nat

/-- The indices of {lit}`_sctab`, which has 128 entries. -/
def inSctab (c : Int) : Bool := 0 ≤ c ∧ c < 128

/-- What is done with the bit {lit}`STP` of an entry. -/
def mark (set : Bool) (entry : Nat) : Nat :=
  if set then entry ||| STP else entry &&& (255 - STP)

/-- {lit}`(c & 0177) == ']'`. -/
def closes (c : Char) : Bool := c.toNat &&& 0o177 = ']'.toNat

/-- The loop of {lit}`_getccl` over the characters of a set. -/
def getcclLoop (t : Bool) : List Char → Sctab → Option (List Char × Sctab)
  | [], _ => none
  | c :: s, tab =>
      if closes c then some (s, tab)
      else if inSctab (code c) then
        let tab := upd tab c.toNat (mark t (tab c.toNat))
        -- The test for the null character comes after the character was changed.
        if code c + 1 = 0 then some (c :: s, tab) else getcclLoop t s tab
      else none

/-- {lit}`_getccl`. -/
def getccl (s : List Char) (tab : Sctab) : Option (List Char × Sctab) :=
  match s with
  | [] => none
  | c :: s' =>
      let t : Bool := c = '^'
      let tab : Sctab := fun i => if i < 128 then mark (!t) (tab i) else tab i
      getcclLoop t (if t then s' else c :: s') tab

/-!
## Strings
-/

/-- What is stored through a pointer. -/
inductive Store where
  | short (p : UInt32) (v : Int)
  | int (p : UInt32) (v : Int)
  | long (p : UInt32) (v : Int)
  | bytes (p : UInt32) (s : List Char)
  deriving DecidableEq

/-- What {lit}`_innum` and {lit}`_instr` leave. -/
structure Taken where
  ret : Bool
  fileended : Bool
  input : ScanInput
  stores : List Store

/-- The first loop of {lit}`_instr`.  The table is read at the end of the input too, before the
test for it. -/
def instrSkip (tab : Sctab) (ignstp : Nat) : List Char → (Nat → Char) → Option (Int × ScanInput)
  | [], before => if inSctab scanEOF then some (scanEOF, ⟨before, []⟩) else none
  | c :: rest, before =>
      if c = NULLCH then
        if inSctab scanEOF then some (scanEOF, ⟨before, c :: rest⟩) else none
      else if inSctab (code c) then
        if tab c.toNat &&& ignstp ≠ 0 then instrSkip tab ignstp rest (ScanInput.push c before)
        else some (code c, ⟨ScanInput.push c before, rest⟩)
      else none

/-- The second loop of {lit}`_instr`, with the length that is left and the characters taken. -/
def instrLoop (tab : Sctab) (ignstp : Nat) : Int → Int → List Char → (Nat → Char) → List Char →
    Option (Int × Int × List Char × ScanInput)
  | ch, len, taken, before, rest =>
      if ch = scanEOF then some (ch, len, taken, ⟨before, rest⟩)
      else if inSctab ch then
        if tab ch.toNat &&& ignstp ≠ 0 then some (ch, len, taken, ⟨before, rest⟩)
        else
          let taken := taken ++ [char ch]
          let len := len - 1
          if len ≤ 0 then some (ch, len, taken, ⟨before, rest⟩)
          else
            match rest with
            | [] => some (scanEOF, len, taken, ⟨before, []⟩)
            | c :: rest =>
                if c = NULLCH then some (scanEOF, len, taken, ⟨before, c :: rest⟩)
                else instrLoop tab ignstp (code c) len taken (ScanInput.push c before) rest
      else none

/-- {lit}`_instr`; the pointer is null when nothing is stored. -/
def instr (ptr : UInt32) (type len : Int) (input : ScanInput) (tab : Sctab) : Option Taken :=
  let len := if type = code 'c' ∧ len = 30000 then 1 else len
  match instrSkip tab (if type = code 's' then SPC else 0) input.rest input.before with
  | none => none
  | some (ch, input) =>
      let ignstp := if type = code 'c' then 0 else if type = code '[' then STP else SPC
      match instrLoop tab ignstp ch len [] input.before input.rest with
      | none => none
      | some (ch, len, taken, input) =>
          let input := if ch ≠ scanEOF ∧ 0 < len then input.ungetch else input
          let fileended : Bool := ch = scanEOF
          if ptr ≠ 0 ∧ taken ≠ [] then
            let taken := if type ≠ code 'c' then taken ++ [NULLCH] else taken
            some { ret := true, fileended, input, stores := [.bytes ptr taken] }
          else some { ret := false, fileended, input, stores := [] }

/-!
## Numbers
-/

inductive Size where
  | short
  | regular
  | long
  deriving DecidableEq, Repr

/-- The characters that count as digits in the loop of {lit}`_innum`. -/
def isNumeral (behind : Nat → Nat) (base c : Int) : Bool :=
  (isdigit behind c ∨ base = 16) ∧
    (code 'a' ≤ c ∧ c ≤ code 'f' ∨ code 'A' ≤ c ∧ c ≤ code 'F')

/-- A digit behind a number. -/
def appendDigit (base lcval c : Int) : Int :=
  let lcval :=
    if base = 8 then int32 (lcval * 8)
    else if base = 10 then int32 (int32 (int32 (lcval * 4) + lcval) * 2)
    else int32 (lcval * 16)
  let c :=
    if code '0' ≤ c ∧ c ≤ code '9' then c - code '0'
    else if code 'a' ≤ c ∧ c ≤ code 'f' then c - (code 'a' - 10)
    else c - (code 'A' - 10)
  int32 (lcval + c)

/-- The variables {lit}`c` and {lit}`lcval` of {lit}`_innum`, the length of what is in
{lit}`numbuf`, and the input. -/
structure Digits where
  c : Int
  lcval : Int
  np : Nat
  input : ScanInput

/-- The loop of {lit}`_innum`. -/
def innumLoop (behind : Nat → Nat) (base : Int) : Int → Int → Int → Nat → (Nat → Char) →
    List Char → Digits
  | c, len, lcval, np, before, rest =>
      let len := len - 1
      if len < 0 then ⟨c, lcval, np, before, rest⟩
      else if isNumeral behind base c then
        let lcval := appendDigit base lcval c
        match rest with
        -- The end of the input, as a character, is no digit.
        | [] => ⟨unsignedChar scanEOF, lcval, np + 1, before, []⟩
        | d :: rest =>
            if d = NULLCH then ⟨unsignedChar scanEOF, lcval, np + 1, before, d :: rest⟩
            else
              innumLoop behind base (unsignedChar (code d)) len lcval (np + 1)
                (ScanInput.push d before) rest
      else ⟨c, lcval, np, before, rest⟩

/-- {lit}`_innum` from the blanks to the negation of the number. -/
def innumDigits (behind : Nat → Nat) (base len : Int) (input : ScanInput) : Digits :=
  let r := input.skip
  let c := unsignedChar r.1
  if c = code '-' then
    let g := r.2.getch
    let l := innumLoop behind base (unsignedChar g.1) (len - 1) 0 1 g.2.before g.2.rest
    { l with lcval := int32 (-l.lcval) }
  else if c = code '+' then
    let g := r.2.getch
    innumLoop behind base (unsignedChar g.1) (len - 1) 0 0 g.2.before g.2.rest
  else innumLoop behind base c len 0 0 r.2.before r.2.rest

/-- What a number is stored as. -/
def storeNumber (size : Size) (p : UInt32) (lcval : Int) : Store :=
  match size with
  | .short => .short p (lcval.bmod 65536)
  | .regular => .int p lcval
  | .long => .long p lcval

/-- The base of a type. -/
def innumBase (type : Int) : Int :=
  if type = code 'o' then 8 else if type = code 'x' then 16 else 10

/-- The part of {lit}`_innum` for numbers.  The pointer is missing when nothing is stored. -/
def innumNumber (behind : Nat → Nat) (ptr : Option UInt32) (type len : Int) (size : Size)
    (input : ScanInput) : Taken :=
  let l := innumDigits behind (innumBase type) len input
  -- A character never equals the end of the input.
  let input := if l.c ≠ scanEOF then l.input.ungetch else l.input
  let fileended : Bool := l.c = scanEOF
  match ptr with
  | none => { ret := false, fileended, input, stores := [] }
  | some p =>
      if l.np = 0 then { ret := false, fileended, input, stores := [] }
      else { ret := true, fileended, input, stores := [storeNumber size p l.lcval] }

/-- {lit}`_innum`. -/
def innum (behind : Nat → Nat) (ptr : Option UInt32) (type len : Int) (size : Size)
    (input : ScanInput) (tab : Sctab) : Option Taken :=
  if type = code 'c' ∨ type = code 's' ∨ type = code '[' then
    instr (ptr.getD 0) type len input tab
  else some (innumNumber behind ptr type len size input)

/-!
## Formats
-/

/-- What a conversion in the format asks for, and what is behind it. -/
structure Conversion where
  ptr : Option UInt32
  type : Int
  len : Int
  size : Size
  fmt : List Char
  ap : VaList
  tab : Sctab

/-- {lit}`ch = *fmt++`. -/
def nextChar : List Char → Option (Int × List Char)
  | [] => none
  | c :: fmt => some (code c, fmt)

/-- The pointer of a conversion, unless a star is there. -/
def scanPointer (ch : Int) (fmt : List Char) (ap : VaList) :
    Option (Option UInt32 × VaList × Int × List Char) :=
  if ch ≠ code '*' then some (some (ap 0), ap.next, ch, fmt)
  else (nextChar fmt).map fun r => (none, ap, r.1, r.2)

/-- The loop over the digits of a length. -/
def scanLength (behind : Nat → Nat) : Int → Int → List Char → Option (Int × Int × List Char)
  | len, ch, fmt =>
      if isdigit behind ch then
        match fmt with
        | [] => none
        | c :: fmt => scanLength behind (int32 (len * 10 + ch - code '0')) (code c) fmt
      else some (len, ch, fmt)

/-- The letter before the type, or a set of characters. -/
def scanSize (ch : Int) (fmt : List Char) (tab : Sctab) :
    Option (Int × Size × List Char × Sctab) :=
  if ch = code 'l' then (nextChar fmt).map fun r => (r.1, .long, r.2, tab)
  else if ch = code 'h' then (nextChar fmt).map fun r => (r.1, .short, r.2, tab)
  else if ch = code '[' then (getccl fmt tab).map fun r => (ch, .regular, r.1, r.2)
  else some (ch, .regular, fmt, tab)

/-- The pointer of a conversion, its length and the character behind it. -/
structure ConvStart where
  ptr : Option UInt32
  ap : VaList
  len : Int
  ch : Int
  fmt : List Char

/-- What is behind a percent sign, up to the length. -/
def readStart (behind : Nat → Nat) (fmt : List Char) (ap : VaList) : Option ConvStart := do
  let (ch, fmt) ← nextChar fmt
  let (ptr, ap, ch, fmt) ← scanPointer ch fmt ap
  let (len, ch, fmt) ← scanLength behind 0 ch fmt
  some { ptr, ap, len := if len = 0 then 30000 else len, ch, fmt }

/-- What is behind a percent sign. -/
def readConversion (behind : Nat → Nat) (fmt : List Char) (ap : VaList) (tab : Sctab) :
    Option Conversion := do
  let st ← readStart behind fmt ap
  let (ch, size, fmt, tab) ← scanSize st.ch st.fmt tab
  let upper := isupper behind ch
  some {
    ptr := st.ptr
    type := if upper then tolower ch else ch
    len := st.len
    size := if upper then .long else size
    fmt := fmt
    ap := st.ap
    tab := tab }

/-!
## The scanner
-/

/-- The variables of {lit}`_doscan`, the input, {lit}`_sctab`, and what was stored so far. -/
structure Scan where
  fmt : List Char
  input : ScanInput
  tab : Sctab
  ap : VaList
  nmatch : Int
  stores : List Store

/-- The loop of {lit}`_doscan` goes on, or it returns. -/
inductive Turn where
  | again (s : Scan)
  | done (ret : Int) (s : Scan)

/-- A character of the format that has to be in the input. -/
def literalTurn (ch : Char) (s : Scan) : Turn :=
  let r := s.input.getch
  if r.1 ≠ code ch then
    if r.1 = scanEOF then .done (-1) { s with input := r.2 }
    else .done s.nmatch { s with input := r.2.ungetch }
  else .again { s with input := r.2 }

/-- Blanks in the format. -/
def blankTurn (s : Scan) : Turn :=
  let r := s.input.skip
  .again { s with input := if r.1 ≠ scanEOF then r.2.ungetch else r.2 }

/-- A conversion. -/
def conversionTurn (behind : Nat → Nat) (k : Conversion) (s : Scan) : Option Turn :=
  let s := { s with fmt := k.fmt, ap := k.ap, tab := k.tab }
  if k.type = 0 then some (.done (-1) s)
  else
    match innum behind k.ptr k.type k.len k.size s.input s.tab with
    | none => none
    | some r =>
        let nmatch := if r.ret ∧ k.ptr ≠ none then s.nmatch + 1 else s.nmatch
        let s := { s with input := r.input, nmatch := nmatch, stores := s.stores ++ r.stores }
        if r.fileended then some (.done (if nmatch ≠ 0 then nmatch else -1) s)
        else some (.again s)

/-- One turn of the loop of {lit}`_doscan`. -/
def turn (behind : Nat → Nat) (s : Scan) : Option Turn :=
  match s.fmt with
  | [] => none
  | ch :: fmt =>
      if ch = NULLCH then some (.done s.nmatch { s with fmt := fmt })
      else if ch = '%' then
        if fmt.head? = some '%' then some (literalTurn '%' { s with fmt := fmt.tail })
        else
          match readConversion behind fmt s.ap s.tab with
          | none => none
          | some k => conversionTurn behind k s
      else if isBlank ch then some (blankTurn { s with fmt := fmt })
      else some (literalTurn ch { s with fmt := fmt })

/-- The loop of {lit}`_doscan`, for a number of turns. -/
def scanLoop (behind : Nat → Nat) : Nat → Scan → Option (Int × Scan)
  | 0, _ => none
  | n + 1, s =>
      match turn behind s with
      | none => none
      | some (.done ret s) => some (ret, s)
      | some (.again s) => scanLoop behind n s

/-- {lit}`_doscan`.  Every turn takes something of the format. -/
def doscan (behind : Nat → Nat) (s : Scan) : Option (Int × Scan) :=
  scanLoop behind s.fmt.length s

/-- {lit}`sscanf`, with the pointers to the results. -/
def sscanf (behind : Nat → Nat) (tab : Sctab) (str : ScanInput) (fmt : List Char)
    (args : VaList) : Option (Int × Scan) :=
  doscan behind
    { fmt := fmt ++ [NULLCH], input := str, tab := tab, ap := args, nmatch := 0, stores := [] }

/-!
## Every turn takes something of the format
-/

section

variable {behind : Nat → Nat} {fmt fmt' : List Char} {tab tab' : Sctab} {ap : VaList}
  {k : Conversion} {s s' : Scan}

theorem getcclLoop_length {t : Bool} (h : getcclLoop t fmt tab = some (fmt', tab')) :
    fmt'.length ≤ fmt.length := by
  induction fmt generalizing tab with
  | nil => cases h
  | cons c fmt ih =>
      unfold getcclLoop at h
      split at h
      · cases h
        exact Nat.le_succ _
      · split at h
        · split at h
          · cases h
            exact le_refl _
          · exact (ih h).trans (Nat.le_succ _)
        · cases h

theorem getccl_length (h : getccl fmt tab = some (fmt', tab')) : fmt'.length ≤ fmt.length := by
  cases fmt with
  | nil => cases h
  | cons c fmt =>
      unfold getccl at h
      dsimp only at h
      have hloop := getcclLoop_length h
      split at hloop
      · exact hloop.trans (Nat.le_succ _)
      · exact hloop

theorem scanLength_length {len len' ch ch' : Int}
    (h : scanLength behind len ch fmt = some (len', ch', fmt')) : fmt'.length ≤ fmt.length := by
  induction fmt generalizing len ch with
  | nil =>
      unfold scanLength at h
      split at h
      · cases h
      · cases h
        exact le_refl _
  | cons c fmt ih =>
      unfold scanLength at h
      split at h
      · exact (ih h).trans (Nat.le_succ _)
      · cases h
        exact le_refl _

theorem nextChar_length {ch : Int} (h : nextChar fmt = some (ch, fmt')) :
    fmt'.length < fmt.length := by
  cases fmt with
  | nil => cases h
  | cons c fmt =>
      cases h
      exact Nat.lt_succ_self _

theorem scanSize_length {ch ch' : Int} {size : Size}
    (h : scanSize ch fmt tab = some (ch', size, fmt', tab')) : fmt'.length ≤ fmt.length := by
  unfold scanSize at h
  split at h
  · obtain ⟨r, hr, heq⟩ := Option.map_eq_some_iff.mp h
    cases heq
    exact (nextChar_length hr).le
  · split at h
    · obtain ⟨r, hr, heq⟩ := Option.map_eq_some_iff.mp h
      cases heq
      exact (nextChar_length hr).le
    · split at h
      · obtain ⟨r, hr, heq⟩ := Option.map_eq_some_iff.mp h
        cases heq
        exact getccl_length hr
      · cases h
        exact le_refl _

theorem scanPointer_length {ch ch' : Int} {ptr : Option UInt32} {ap' : VaList}
    (h : scanPointer ch fmt ap = some (ptr, ap', ch', fmt')) : fmt'.length ≤ fmt.length := by
  unfold scanPointer at h
  split at h
  · cases h
    exact le_refl _
  · obtain ⟨r, hr, heq⟩ := Option.map_eq_some_iff.mp h
    cases heq
    exact (nextChar_length hr).le

theorem readStart_length {st : ConvStart} (h : readStart behind fmt ap = some st) :
    st.fmt.length < fmt.length := by
  simp only [readStart, Option.bind_eq_bind, Option.bind_eq_some_iff, Option.some.injEq,
    Prod.exists] at h
  obtain ⟨ch, fmt₁, hfirst, ptr, ap', ch₁, fmt₂, hptr, len, ch₂, fmt₃, hlen, rfl⟩ := h
  exact ((scanLength_length hlen).trans (scanPointer_length hptr)).trans_lt (nextChar_length hfirst)

theorem readConversion_eq_some (h : readConversion behind fmt ap tab = some k) :
    ∃ st, readStart behind fmt ap = some st ∧
      ∃ ch size, scanSize st.ch st.fmt tab = some (ch, size, k.fmt, k.tab) ∧
        k.type = if isupper behind ch then tolower ch else ch := by
  simp only [readConversion, Option.bind_eq_bind, Option.bind_eq_some_iff, Option.some.injEq,
    Prod.exists] at h
  obtain ⟨st, hst, ch, size, fmt', tab', hsize, rfl⟩ := h
  exact ⟨st, hst, ch, size, hsize, rfl⟩

theorem readConversion_length (h : readConversion behind fmt ap tab = some k) :
    k.fmt.length < fmt.length := by
  obtain ⟨st, hst, ch, size, hsize, -⟩ := readConversion_eq_some h
  exact (scanSize_length hsize).trans_lt (readStart_length hst)

theorem literalTurn_fmt {ch : Char} (h : literalTurn ch s = .again s') : s'.fmt = s.fmt := by
  unfold literalTurn at h
  dsimp only at h
  split at h
  · split at h <;> cases h
  · cases h
    rfl

theorem conversionTurn_fmt (h : conversionTurn behind k s = some (.again s')) : s'.fmt = k.fmt := by
  unfold conversionTurn at h
  dsimp only at h
  split at h
  · cases h
  · split at h
    · cases h
    · split at h
      · cases h
      · cases h
        rfl

theorem turn_length (h : turn behind s = some (.again s')) : s'.fmt.length < s.fmt.length := by
  unfold turn at h
  split at h
  case h_1 => cases h
  case h_2 ch fmt hfmt =>
    rw [hfmt, List.length_cons]
    split at h
    · cases h
    · split at h
      · split at h
        · rw [literalTurn_fmt (Option.some.inj h), List.length_tail]
          exact Nat.lt_succ_of_le (Nat.sub_le _ _)
        · split at h
          · cases h
          · rename_i k hk
            rw [conversionTurn_fmt h]
            exact (readConversion_length hk).trans (Nat.lt_succ_self _)
      · split at h
        · cases h
          exact Nat.lt_succ_self _
        · rw [literalTurn_fmt (Option.some.inj h)]
          exact Nat.lt_succ_self _

/-- More turns than there are characters in the format change nothing. -/
theorem scanLoop_eq {n : Nat} (h : s.fmt.length ≤ n) :
    scanLoop behind n s = doscan behind s := by
  unfold doscan
  induction n using Nat.strong_induction_on generalizing s with
  | _ n ih =>
      cases n with
      | zero => rw [Nat.le_zero.mp h]
      | succ n =>
          cases hfmt : s.fmt.length with
          | zero =>
              have hnil := List.eq_nil_of_length_eq_zero hfmt
              unfold scanLoop turn
              rw [hnil]
          | succ m =>
              rw [scanLoop, scanLoop]
              cases hturn : turn behind s with
              | none => rfl
              | some t =>
                  cases t with
                  | done ret s' => rfl
                  | again s' =>
                      have hlt := turn_length hturn
                      have hn := ih n (Nat.lt_succ_self n) (s := s') (by omega)
                      have hm := ih m (by omega) (s := s') (by omega)
                      exact hn.trans hm.symm

/-- The scanner makes one turn after another. -/
theorem doscan_eq : doscan behind s =
    match turn behind s with
    | none => none
    | some (.done ret s) => some (ret, s)
    | some (.again s) => doscan behind s := by
  rw [← scanLoop_eq (Nat.le_succ _), scanLoop]
  cases hturn : turn behind s with
  | none => rfl
  | some t =>
      cases t with
      | done ret s' => rfl
      | again s' => exact scanLoop_eq (turn_length hturn).le

theorem doscan_none (h : turn behind s = none) : doscan behind s = none := by
  rw [doscan_eq, h]

theorem doscan_done {ret : Int} (h : turn behind s = some (.done ret s')) :
    doscan behind s = some (ret, s') := by
  rw [doscan_eq, h]

theorem doscan_again (h : turn behind s = some (.again s')) :
    doscan behind s = doscan behind s' := by
  rw [doscan_eq, h]

end

end Stdio
end BbbXinu
