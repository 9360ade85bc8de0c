import BbbXinu.Shell.State
import BbbXinu.Tty.Input
import Mathlib.Data.List.TakeWhile

/-!
# Dividing a command line into tokens

{lit}`lexan.c`.  A line is the list of its characters, and behind the last one there is a null
character.  What the analyzer writes into the buffer and the two arrays it writes at their
ends, so they are lists, of which only the entries of counted tokens are kept.
-/

namespace BbbXinu

def SHELL_MAXTOK : Nat := 32

def SH_NEWLINE : Char := '\n'
def SH_AMPER : Char := '&'
def SH_BLANK : Char := ' '
def SH_TAB : Char := '\t'
def SH_SQUOTE : Char := '\''
def SH_DQUOTE : Char := '"'
def SH_LESS : Char := '<'
def SH_GREATER : Char := '>'

/-- Token types, {lit}`SH_TOK_AMPER` to {lit}`SH_TOK_OTHER`. -/
inductive ShTok where
  | amper | less | greater | other
  deriving DecidableEq, Repr

def IsEnd (c : Char) : Prop := c = NULLCH ∨ c = SH_NEWLINE

instance (c : Char) : Decidable (IsEnd c) := inferInstanceAs (Decidable (_ ∨ _))

def IsBlank (c : Char) : Prop := c = SH_BLANK ∨ c = SH_TAB

instance (c : Char) : Decidable (IsBlank c) := inferInstanceAs (Decidable (_ ∨ _))

def IsQuote (c : Char) : Prop := c = SH_SQUOTE ∨ c = SH_DQUOTE

instance (c : Char) : Decidable (IsQuote c) := inferInstanceAs (Decidable (_ ∨ _))

/-- A character that goes on with a word. -/
def InWord (c : Char) : Prop :=
  ¬IsEnd c ∧ c ≠ SH_LESS ∧ c ≠ SH_GREATER ∧ ¬IsBlank c ∧ c ≠ SH_AMPER ∧ ¬IsQuote c

instance (c : Char) : Decidable (InWord c) := inferInstanceAs (Decidable (_ ∧ _))

/-- The error of a token that is appended to a word. -/
def Appends (c : Char) : Prop := IsQuote c ∨ c = SH_LESS ∨ c = SH_GREATER

instance (c : Char) : Decidable (Appends c) := inferInstanceAs (Decidable (_ ∨ _))

/-- The token buffer and the arrays {lit}`tok` and {lit}`toktyp`. -/
structure Lex where
  tokbuf : List Char
  tok : List Nat
  toktyp : List ShTok

namespace Lex

/-- No tokens. -/
def empty : Lex := { tokbuf := [], tok := [], toktyp := [] }

def ntok (L : Lex) : Nat := L.tok.length

/-- The number of characters in the buffer, which is stored for the caller. -/
def tlen (L : Lex) : Nat := L.tokbuf.length

/-- Another token. -/
def token (L : Lex) (typ : ShTok) (text : List Char) : Lex where
  tokbuf := L.tokbuf ++ text ++ [NULLCH]
  tok := L.tok ++ [L.tokbuf.length]
  toktyp := L.toktyp ++ [typ]

end Lex

theorem length_tail_lt {p : List Char} (h : ¬IsEnd (p.headD NULLCH)) :
    p.tail.length < p.length := by
  cases p with
  | nil => exact absurd (Or.inl rfl) h
  | cons c p => exact Nat.lt_succ_self _

/-- The loop over the tokens of the rest of a line.  There is no result when
{lit}`SYSERR` is returned. -/
def lexLoop (L : Lex) (line : List Char) : Option Lex :=
  if IsEnd (line.headD NULLCH) then some L
  else if SHELL_MAXTOK ≤ L.ntok then none
  else
    let p := line.dropWhile fun c => IsBlank c
    let ch := p.headD NULLCH
    if IsEnd ch then some L
    else if ch = SH_AMPER then lexLoop (L.token .amper [ch]) p.tail
    else if ch = SH_LESS then lexLoop (L.token .less [ch]) p.tail
    else if ch = SH_GREATER then lexLoop (L.token .greater [ch]) p.tail
    else if IsQuote ch then
      let after := p.tail.dropWhile fun c => c ≠ ch ∧ ¬IsEnd c
      if after.headD NULLCH ≠ ch then none
      else
        lexLoop (L.token .other (p.tail.takeWhile fun c => c ≠ ch ∧ ¬IsEnd c)) after.tail
    else
      let after := p.tail.dropWhile fun c => InWord c
      if Appends (after.headD NULLCH) then none
      else lexLoop (L.token .other (ch :: p.tail.takeWhile fun c => InWord c)) after
termination_by line.length
decreasing_by
  all_goals
    have hskip : p.length ≤ line.length := List.length_dropWhile_le _ line
    have htail := length_tail_lt ‹¬IsEnd ch›
  · exact htail.trans_le hskip
  · exact htail.trans_le hskip
  · exact htail.trans_le hskip
  · have hafter : after.length ≤ p.tail.length := List.length_dropWhile_le _ p.tail
    exact ((List.tail_sublist after).length_le.trans hafter).trans_lt (htail.trans_le hskip)
  · have hafter : after.length ≤ p.tail.length := List.length_dropWhile_le _ p.tail
    exact hafter.trans_lt (htail.trans_le hskip)

/-- Divide a command line into tokens. -/
def lexan (line : List Char) : Option Lex := lexLoop Lex.empty line

/-!
## The analyzer with its pointers

The same routine once more, with the pointer that walks along the line and with the arrays
that the shell provides.  The line is a piece of memory, and each array has the size that
is declared for it.  There is no result when an access is outside of them.
-/

def SHELL_BUFLEN : Nat := Tty.TY_IBUFLEN + 1

namespace Lexer

/-- The arrays of the shell. -/
structure Arrays where
  tokbuf : Nat → Char
  tok : Nat → Nat
  toktyp : Nat → ShTok

/-- The variables of the analyzer, and the arrays. -/
structure Place where
  p : Nat
  ntok : Nat
  tbindex : Nat
  arrays : Arrays

/-- What the analyzer returns, with the length that it stores and the arrays. -/
inductive Result where
  | syserr
  | tokens (ntok tlen : Nat) (arrays : Arrays)

namespace Place

/-- {lit}`tokbuf[tbindex++] = ch`. -/
def put (s : Place) (ch : Char) : Option Place :=
  if s.tbindex < SHELL_BUFLEN + SHELL_MAXTOK then
    some { s with
      tbindex := s.tbindex + 1
      arrays := { s.arrays with tokbuf := upd s.arrays.tokbuf s.tbindex ch } }
  else none

/-- {lit}`tok[ntok] = tbindex`. -/
def setTok (s : Place) : Option Place :=
  if s.ntok < SHELL_MAXTOK then
    some { s with arrays := { s.arrays with tok := upd s.arrays.tok s.ntok s.tbindex } }
  else none

/-- {lit}`toktyp[ntok] = typ`. -/
def setToktyp (s : Place) (typ : ShTok) : Option Place :=
  if s.ntok < SHELL_MAXTOK then
    some { s with arrays := { s.arrays with toktyp := upd s.arrays.toktyp s.ntok typ } }
  else none

def skip (s : Place) : Place := { s with p := s.p + 1 }

def count (s : Place) : Place := { s with ntok := s.ntok + 1 }

/-- A case of the {lit}`switch`. -/
def operator (s : Place) (typ : ShTok) (ch : Char) : Option Place := do
  let s ← s.setToktyp typ
  let s ← s.put ch
  let s ← s.put NULLCH
  return s.count.skip

end Place

def skipBlanks (line : List Char) : Nat → Place → Option Place
  | 0, _ => none
  | fuel + 1, s => do
      let ch ← getElem? line s.p
      if IsBlank ch then skipBlanks line fuel s.skip else return s

/-- The loop over a quoted string.  The character at which it ends has been passed. -/
def quotedLoop (line : List Char) (quote : Char) : Nat → Place → Option (Char × Place)
  | 0, _ => none
  | fuel + 1, s => do
      let ch ← getElem? line s.p
      if ch ≠ quote ∧ ¬IsEnd ch then do
        let s ← s.skip.put ch
        quotedLoop line quote fuel s
      else return (ch, s.skip)

/-- The loop over a word, up to the character at which it ends. -/
def wordLoop (line : List Char) : Nat → Place → Option (Char × Place)
  | 0, _ => none
  | fuel + 1, s => do
      let ch ← getElem? line s.p
      if InWord ch then do
        let s ← s.put ch
        wordLoop line fuel s.skip
      else return (ch, s)

/-- A token that begins with the character {lit}`ch`.  Without another place the analyzer
returns {lit}`SYSERR`. -/
def token (line : List Char) (s : Place) (ch : Char) : Option (Option Place) := do
  let s ← s.setTok
  if ch = SH_AMPER then do
    let s ← s.operator .amper ch
    return some s
  else if ch = SH_LESS then do
    let s ← s.operator .less ch
    return some s
  else if ch = SH_GREATER then do
    let s ← s.operator .greater ch
    return some s
  else do
    let s ← s.setToktyp .other
    if IsQuote ch then do
      let r ← quotedLoop line ch line.length s.skip
      if r.1 ≠ ch then return none
      else do
        let s ← r.2.put NULLCH
        return some s.count
    else do
      let s ← s.put ch
      let r ← wordLoop line line.length s.skip
      if Appends r.1 then return none
      else do
        let s ← r.2.put NULLCH
        return some s.count

/-- The loop over the tokens.  No loop takes more turns than the line has characters. -/
def tokenLoop (line : List Char) : Nat → Place → Option Result
  | 0, _ => none
  | fuel + 1, s => do
      let ch ← getElem? line s.p
      if IsEnd ch then return .tokens s.ntok s.tbindex s.arrays
      else if SHELL_MAXTOK ≤ s.ntok then return .syserr
      else do
        let s ← skipBlanks line line.length s
        let ch ← getElem? line s.p
        if IsEnd ch then return .tokens s.ntok s.tbindex s.arrays
        else do
          let next ← token line s ch
          match next with
          | none => return .syserr
          | some s => tokenLoop line fuel s

/-- Divide a command line into tokens. -/
def lexan (line : List Char) (arrays : Arrays) : Option Result :=
  tokenLoop line line.length { p := 0, ntok := 0, tbindex := 0, arrays }

end Lexer

end BbbXinu
