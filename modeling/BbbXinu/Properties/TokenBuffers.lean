import BbbXinu.Lib.Scatter
import BbbXinu.Properties.Tokens

/-!
# The buffers of the analyzer

Each token adds a null byte that is not in the line, so what has been stored is bounded by
the characters passed and the tokens counted.  As long as no more than the line is passed
and no more tokens are counted than there may be, it fits.
-/

namespace BbbXinu

open Scatter

/-- A command line in memory.  There is nothing behind its terminator. -/
structure CommandLine where
  chars : List Char
  terminator : Char
  nonend : ∀ c ∈ chars, ¬IsEnd c
  short : chars.length ≤ SHELL_BUFLEN
  isEnd : IsEnd terminator

def CommandLine.memory (line : CommandLine) : List Char := line.chars ++ [line.terminator]

namespace Lexer

/-- Where a token ends: the next one begins there, or the data end. -/
def Arrays.stop (a : Arrays) (ntok tlen i : Nat) : Nat :=
  if i + 1 < ntok then a.tok (i + 1) else tlen

/-- The tokens lie one after the other, from the start of the buffer to the end of the data,
and each one has its only null character at its end. -/
structure Arrays.Laid (a : Arrays) (ntok tlen : Nat) : Prop where
  empty : ntok = 0 → tlen = 0
  first : 0 < ntok → a.tok 0 = 0
  ends : ∀ i < ntok, ∃ last, a.stop ntok tlen i = last + 1 ∧ a.tok i ≤ last ∧
    a.tokbuf last = NULLCH ∧ ∀ j, a.tok i ≤ j → j < last → a.tokbuf j ≠ NULLCH

/-- No access is outside of the line or the arrays, and what is returned describes the
tokens. -/
def Result.Safe : Option Result → Prop
  | none => False
  | some .syserr => True
  | some (.tokens ntok tlen a) =>
      ntok ≤ SHELL_MAXTOK ∧ tlen ≤ SHELL_BUFLEN + SHELL_MAXTOK ∧ a.Laid ntok tlen

/-- The same result as that of the analyzer without pointers. -/
inductive Agrees (line : CommandLine) : Option Result → Option Lex → Prop where
  | syserr : Agrees line (some .syserr) none
  | tokens {ntok tlen : Nat} {a : Arrays} {L : Lex} (hntok : ntok ≤ SHELL_MAXTOK)
      (htlen : tlen ≤ line.chars.length + ntok) (tokbuf : front a.tokbuf tlen = L.tokbuf)
      (tok : front a.tok ntok = L.tok) (toktyp : front a.toktyp ntok = L.toktyp) :
      Agrees line (some (.tokens ntok tlen a)) (some L)

/-- The characters from a place on are these. -/
structure At (line : CommandLine) (s : Place) (rest : List Char) : Prop where
  p_le : s.p ≤ line.chars.length
  rest_eq : line.chars.drop s.p = rest

/-- Between two tokens. -/
structure Holds (line : CommandLine) (s : Place) (L : Lex) (rest : List Char) : Prop
    extends At line s rest where
  ntok_le : s.ntok ≤ SHELL_MAXTOK
  room : s.tbindex ≤ s.p + s.ntok
  tokbuf : front s.arrays.tokbuf s.tbindex = L.tokbuf
  tok : front s.arrays.tok s.ntok = L.tok
  toktyp : front s.arrays.toktyp s.ntok = L.toktyp

/-- In the middle of a token, of which some text has been stored. -/
structure Inside (line : CommandLine) (s : Place) (L : Lex) (typ : ShTok) (text rest : List Char) :
    Prop extends At line s rest where
  ntok_lt : s.ntok < SHELL_MAXTOK
  room : s.tbindex ≤ s.p + s.ntok
  tokbuf : front s.arrays.tokbuf s.tbindex = L.tokbuf ++ text
  tok : front s.arrays.tok (s.ntok + 1) = L.tok ++ [L.tlen]
  toktyp : front s.arrays.toktyp (s.ntok + 1) = L.toktyp ++ [typ]

section

variable {line : CommandLine} {s s' : Place} {L : Lex} {typ : ShTok} {text rest : List Char}
  {c q : Char} {fuel : Nat}

/-!
## Reading the line
-/

theorem At.read (h : At line s rest) : line.memory[s.p]? = some (rest.headD line.terminator) := by
  have hp := h.p_le
  rw [← h.rest_eq]
  unfold CommandLine.memory
  by_cases hend : s.p = line.chars.length
  · rw [hend, List.drop_length, List.getElem?_concat_length]
    rfl
  · have hlt : s.p < line.chars.length := by omega
    rw [List.getElem?_append_left hlt, List.getElem?_eq_getElem hlt, List.drop_eq_getElem_cons hlt]
    rfl

theorem At.nonend (h : At line s rest) : ∀ d ∈ rest, ¬IsEnd d := fun d hd =>
  line.nonend d (List.mem_of_mem_drop (h.rest_eq ▸ hd))

theorem At.skip (h : At line s (c :: rest)) : At line s.skip rest where
  p_le := by
    have hlen := congrArg List.length h.rest_eq
    rw [List.length_drop, List.length_cons] at hlen
    change s.p + 1 ≤ line.chars.length
    omega
  rest_eq := by
    change line.chars.drop (s.p + 1) = rest
    rw [← List.tail_drop, h.rest_eq, List.tail_cons]

theorem At.length_lt (h : At line s rest) : rest.length < line.memory.length := by
  rw [← h.rest_eq, List.length_drop]
  unfold CommandLine.memory
  rw [List.length_append, List.length_singleton]
  omega

/-!
## Storing characters
-/

/-- The effect of {lit}`put`. -/
def Place.stored (s : Place) (ch : Char) : Place :=
  { s with
    tbindex := s.tbindex + 1
    arrays := { s.arrays with tokbuf := upd s.arrays.tokbuf s.tbindex ch } }

theorem put_eq (h : s.tbindex < SHELL_BUFLEN + SHELL_MAXTOK) (ch : Char) :
    s.put ch = some (s.stored ch) := if_pos h

/-- There is room for the null character of a token that has been begun. -/
theorem Inside.fits (h : Inside line s L typ text rest) :
    s.tbindex < SHELL_BUFLEN + SHELL_MAXTOK := by
  have hroom := h.room
  have hp := h.p_le
  have hshort := line.short
  have hntok := h.ntok_lt
  omega

/-- The next character of the line is stored. -/
theorem Inside.put (h : Inside line s L typ text (c :: rest)) :
    Inside line (s.stored c).skip L typ (text ++ [c]) rest where
  toAt := ⟨h.toAt.skip.p_le, h.toAt.skip.rest_eq⟩
  ntok_lt := h.ntok_lt
  room := by
    have hroom := h.room
    change s.tbindex + 1 ≤ s.p + 1 + s.ntok
    omega
  tokbuf := by
    change front (upd s.arrays.tokbuf s.tbindex c) (s.tbindex + 1) = _
    rw [front_upd, h.tokbuf, List.append_assoc]
  tok := h.tok
  toktyp := h.toktyp

/-- The next character of the line is left out. -/
theorem Inside.skip (h : Inside line s L typ text (c :: rest)) :
    Inside line s.skip L typ text rest where
  toAt := h.toAt.skip
  ntok_lt := h.ntok_lt
  room := h.room.trans (Nat.add_le_add_right (Nat.le_succ _) _)
  tokbuf := h.tokbuf
  tok := h.tok
  toktyp := h.toktyp

/-- The token ends. -/
theorem Inside.close (h : Inside line s L typ text rest) :
    Holds line (s.stored NULLCH).count (L.token typ text) rest where
  toAt := ⟨h.p_le, h.rest_eq⟩
  ntok_le := h.ntok_lt
  room := by
    have hroom := h.room
    change s.tbindex + 1 ≤ s.p + (s.ntok + 1)
    omega
  tokbuf := by
    change front (upd s.arrays.tokbuf s.tbindex NULLCH) (s.tbindex + 1) = _
    rw [front_upd, h.tokbuf]
    rfl
  tok := h.tok
  toktyp := h.toktyp

theorem Holds.tbindex_eq (h : Holds line s L rest) : s.tbindex = L.tlen := by
  unfold Lex.tlen
  rw [← h.tokbuf, length_front]

theorem Holds.ntok_eq (h : Holds line s L rest) : s.ntok = L.ntok := by
  unfold Lex.ntok
  rw [← h.tok, length_front]

/-- A token begins. -/
def Place.begun (s : Place) : Place :=
  { s with arrays := { s.arrays with tok := upd s.arrays.tok s.ntok s.tbindex } }

def Place.typed (s : Place) (typ : ShTok) : Place :=
  { s with arrays := { s.arrays with toktyp := upd s.arrays.toktyp s.ntok typ } }

theorem Holds.begins (h : Holds line s L rest) (hroom : s.ntok < SHELL_MAXTOK) (typ : ShTok) :
    Inside line (s.begun.typed typ) L typ [] rest where
  toAt := ⟨h.p_le, h.rest_eq⟩
  ntok_lt := hroom
  room := h.room
  tokbuf := h.tokbuf.trans (List.append_nil _).symm
  tok := by
    change front (upd s.arrays.tok s.ntok s.tbindex) (s.ntok + 1) = _
    rw [front_upd, h.tok, h.tbindex_eq]
  toktyp := by
    change front (upd s.arrays.toktyp s.ntok typ) (s.ntok + 1) = _
    rw [front_upd, h.toktyp]

theorem Holds.skip (h : Holds line s L (c :: rest)) : Holds line s.skip L rest where
  toAt := h.toAt.skip
  ntok_le := h.ntok_le
  room := h.room.trans (Nat.add_le_add_right (Nat.le_succ _) _)
  tokbuf := h.tokbuf
  tok := h.tok
  toktyp := h.toktyp

/-!
## The loops inside a token
-/

theorem skipBlanks_ok (h : Holds line s L rest) (hfuel : rest.length < fuel) :
    ∃ s', skipBlanks line.memory fuel s = some s' ∧ s'.ntok = s.ntok ∧
      Holds line s' L (rest.dropWhile fun c => IsBlank c) := by
  induction rest generalizing s fuel with
  | nil =>
      cases fuel with
      | zero => omega
      | succ fuel =>
          refine ⟨s, ?_, rfl, h⟩
          have hstop : ¬IsBlank line.terminator := fun hb => hb.not_end line.isEnd
          unfold skipBlanks
          rw [h.toAt.read, Option.bind_eq_bind, Option.bind_some, List.headD_nil, if_neg hstop]
          rfl
  | cons c rest ih =>
      cases fuel with
      | zero => omega
      | succ fuel =>
          unfold skipBlanks
          rw [h.toAt.read, Option.bind_eq_bind, Option.bind_some, List.headD_cons]
          by_cases hb : IsBlank c
          · rw [if_pos hb, List.dropWhile_cons, if_pos (decide_eq_true hb)]
            exact ih h.skip (Nat.lt_of_succ_lt_succ hfuel)
          · rw [if_neg hb, List.dropWhile_cons, if_neg (by simpa using hb)]
            exact ⟨s, rfl, rfl, h⟩

/-- A quoted string is stored up to the character that ends it. -/
theorem quotedLoop_ok (h : Inside line s L typ text rest) (hfuel : rest.length < fuel) (q : Char) :
    ∃ s', quotedLoop line.memory q fuel s =
        some ((rest.dropWhile fun d => d ≠ q ∧ ¬IsEnd d).headD line.terminator, s'.skip) ∧
      Inside line s' L typ (text ++ rest.takeWhile fun d => d ≠ q ∧ ¬IsEnd d)
        (rest.dropWhile fun d => d ≠ q ∧ ¬IsEnd d) := by
  induction rest generalizing s text fuel with
  | nil =>
      cases fuel with
      | zero => omega
      | succ fuel =>
          refine ⟨s, ?_, (List.append_nil text).symm ▸ h⟩
          have hstop : ¬(line.terminator ≠ q ∧ ¬IsEnd line.terminator) :=
            fun hgo => hgo.2 line.isEnd
          unfold quotedLoop
          rw [h.toAt.read, Option.bind_eq_bind, Option.bind_some, List.headD_nil, if_neg hstop]
          rfl
  | cons c rest ih =>
      cases fuel with
      | zero => omega
      | succ fuel =>
          unfold quotedLoop
          rw [h.toAt.read, Option.bind_eq_bind, Option.bind_some, List.headD_cons]
          by_cases hgo : c ≠ q ∧ ¬IsEnd c
          · rw [if_pos hgo, put_eq (s := s.skip) h.fits, Option.bind_eq_bind, Option.bind_some,
              List.takeWhile_cons, if_pos (decide_eq_true hgo),
              List.dropWhile_cons, if_pos (decide_eq_true hgo), List.append_cons]
            exact ih h.put (Nat.lt_of_succ_lt_succ hfuel)
          · have hstop : ¬decide (c ≠ q ∧ ¬IsEnd c) = true := fun hd => hgo (of_decide_eq_true hd)
            rw [if_neg hgo, List.takeWhile_cons, if_neg hstop, List.dropWhile_cons, if_neg hstop,
              List.append_nil]
            exact ⟨s, rfl, h⟩

/-- A word is stored up to the character that ends it. -/
theorem wordLoop_ok (h : Inside line s L typ text rest) (hfuel : rest.length < fuel) :
    ∃ s', wordLoop line.memory fuel s =
        some ((rest.dropWhile fun d => InWord d).headD line.terminator, s') ∧
      Inside line s' L typ (text ++ rest.takeWhile fun d => InWord d)
        (rest.dropWhile fun d => InWord d) := by
  induction rest generalizing s text fuel with
  | nil =>
      cases fuel with
      | zero => omega
      | succ fuel =>
          refine ⟨s, ?_, (List.append_nil text).symm ▸ h⟩
          unfold wordLoop
          rw [h.toAt.read, Option.bind_eq_bind, Option.bind_some, List.headD_nil,
            if_neg line.isEnd.not_inWord]
          rfl
  | cons c rest ih =>
      cases fuel with
      | zero => omega
      | succ fuel =>
          unfold wordLoop
          rw [h.toAt.read, Option.bind_eq_bind, Option.bind_some, List.headD_cons]
          by_cases hw : InWord c
          · rw [if_pos hw, put_eq h.fits, Option.bind_eq_bind, Option.bind_some,
              List.takeWhile_cons, if_pos (decide_eq_true hw),
              List.dropWhile_cons, if_pos (decide_eq_true hw), List.append_cons]
            exact ih h.put (Nat.lt_of_succ_lt_succ hfuel)
          · have hstop : ¬decide (InWord c) = true := fun hd => hw (of_decide_eq_true hd)
            rw [if_neg hw, List.takeWhile_cons, if_neg hstop, List.dropWhile_cons, if_neg hstop,
              List.append_nil]
            exact ⟨s, rfl, h⟩

/-!
## Tokens
-/

/-- One token of the analyzer with pointers is one turn of the loop without them. -/
inductive Turn (line : CommandLine) (s : Place) (L : Lex) (c : Char) (rest : List Char) : Prop where
  | syserr (hs : token line.memory s c = some none) (hL : lexLoop L (c :: rest) = none) :
      Turn line s L c rest
  | counted {s' : Place} {L' : Lex} {rest' : List Char}
      (hs : token line.memory s c = some (some s'))
      (hL : lexLoop L (c :: rest) = lexLoop L' rest') (hlen : rest'.length ≤ rest.length)
      (h : Holds line s' L' rest') : Turn line s L c rest

theorem setTok_eq (h : s.ntok < SHELL_MAXTOK) : s.setTok = some s.begun := if_pos h

theorem setToktyp_eq (h : s.ntok < SHELL_MAXTOK) (typ : ShTok) :
    s.setToktyp typ = some (s.typed typ) := if_pos h

theorem operator_eq (h : Inside line (s.typed typ) L typ [] (c :: rest)) :
    ∃ s', s.operator typ c = some s' ∧ Holds line s' (L.token typ [c]) rest := by
  have hclose := h.put.close
  refine ⟨_, ?_, hclose⟩
  have hnull : ((s.typed typ).stored c).put NULLCH = some (((s.typed typ).stored c).stored NULLCH) :=
    if_pos h.put.fits
  unfold Place.operator
  simp only [Option.bind_eq_bind]
  rw [setToktyp_eq (s := s) h.ntok_lt, Option.bind_some, put_eq h.fits, Option.bind_some, hnull]
  rfl

theorem turn_operator (h : Holds line s L (c :: rest)) (hroom : s.ntok < SHELL_MAXTOK)
    (hc : operatorType c = some typ) : Turn line s L c rest := by
  have hfull : ¬SHELL_MAXTOK ≤ L.ntok := by rw [← h.ntok_eq]; omega
  rcases operator_eq (h.begins hroom typ) with ⟨s', hs', hholds⟩
  refine .counted ?_ ?_ (Nat.le_refl _) hholds
  · unfold token
    rw [setTok_eq hroom, Option.bind_eq_bind, Option.bind_some]
    rcases operator_cases hc with ⟨rfl, rfl⟩ | ⟨rfl, rfl⟩ | ⟨rfl, rfl⟩
    · rw [if_pos rfl, hs']
      rfl
    · rw [if_neg (by decide), if_pos rfl, hs']
      rfl
    · rw [if_neg (by decide), if_neg (by decide), if_pos rfl, hs']
      rfl
  · rw [lexLoop_operator hc, if_neg hfull]

theorem turn_quote (h : Holds line s L (q :: rest)) (hroom : s.ntok < SHELL_MAXTOK)
    (hq : IsQuote q) : Turn line s L q rest := by
  have hfull : ¬SHELL_MAXTOK ≤ L.ntok := by rw [← h.ntok_eq]; omega
  have hne : q ≠ SH_AMPER ∧ q ≠ SH_LESS ∧ q ≠ SH_GREATER := by
    rcases hq with rfl | rfl
    · decide
    · decide
  have hbegun := (h.begins hroom .other).skip
  rcases quotedLoop_ok hbegun hbegun.toAt.length_lt q with ⟨s', hs', hinside⟩
  have htoken : token line.memory s q =
      (if (rest.dropWhile fun d => d ≠ q ∧ ¬IsEnd d).headD line.terminator ≠ q then some none
      else (s'.skip.put NULLCH).bind fun s => some (some s.count)) := by
    unfold token
    simp only [Option.bind_eq_bind]
    rw [setTok_eq hroom, Option.bind_some, if_neg hne.1, if_neg hne.2.1, if_neg hne.2.2,
      setToktyp_eq (s := s.begun) hroom, Option.bind_some, if_pos hq, hs', Option.bind_some]
    rfl
  cases hafter : rest.dropWhile (fun d => d ≠ q ∧ ¬IsEnd d) with
  | nil =>
      have hlast : line.terminator ≠ q := fun heq => hq.not_end (heq ▸ line.isEnd)
      have hnull : NULLCH ≠ q := fun heq => hq.not_end (heq ▸ Or.inl rfl)
      refine .syserr ?_ ?_
      · rw [htoken, hafter, List.headD_nil, if_pos hlast]
      · rw [lexLoop_quote hq, hafter, List.headD_nil, if_pos hnull, ite_self]
  | cons d after =>
      rw [hafter] at hinside
      by_cases hd : d = q
      · have hclose := hinside.skip.close
        refine .counted ?_ ?_ ?_ hclose
        · rw [htoken, hafter, List.headD_cons, if_neg (not_not.mpr hd), put_eq hinside.skip.fits]
          rfl
        · rw [lexLoop_quote hq, hafter, List.headD_cons, if_neg hfull, if_neg (not_not.mpr hd),
            List.tail_cons]
          rfl
        · have hlen := List.length_dropWhile_le (fun d => d ≠ q ∧ ¬IsEnd d) rest
          rw [hafter, List.length_cons] at hlen
          omega
      · refine .syserr ?_ ?_
        · rw [htoken, hafter, List.headD_cons, if_pos hd]
        · rw [lexLoop_quote hq, hafter, List.headD_cons, if_pos hd, ite_self]

theorem turn_word (h : Holds line s L (c :: rest)) (hroom : s.ntok < SHELL_MAXTOK)
    (hc : InWord c) : Turn line s L c rest := by
  have hfull : ¬SHELL_MAXTOK ≤ L.ntok := by rw [← h.ntok_eq]; omega
  have hbegun := h.begins hroom .other
  rcases wordLoop_ok hbegun.put hbegun.put.toAt.length_lt with ⟨s', hs', hinside⟩
  have htoken : token line.memory s c =
      (if Appends ((rest.dropWhile fun d => InWord d).headD line.terminator) then some none
      else (s'.put NULLCH).bind fun s => some (some s.count)) := by
    unfold token
    simp only [Option.bind_eq_bind]
    rw [setTok_eq hroom, Option.bind_some, if_neg hc.2.2.2.2.1, if_neg hc.2.1, if_neg hc.2.2.1,
      setToktyp_eq (s := s.begun) hroom, Option.bind_some, if_neg hc.2.2.2.2.2,
      put_eq hbegun.fits, Option.bind_some, hs', Option.bind_some]
    rfl
  have hsame : Appends ((rest.dropWhile fun d => InWord d).headD line.terminator) ↔
      Appends ((rest.dropWhile fun d => InWord d).headD NULLCH) := by
    cases rest.dropWhile fun d => InWord d with
    | nil => exact iff_of_false line.isEnd.not_appends (IsEnd.not_appends (Or.inl rfl))
    | cons d after => exact Iff.rfl
  by_cases happends : Appends ((rest.dropWhile fun d => InWord d).headD NULLCH)
  · refine .syserr ?_ ?_
    · rw [htoken, if_pos (hsame.mpr happends)]
    · rw [lexLoop_word hc, if_pos happends, ite_self]
  · have hclose := hinside.close
    refine .counted ?_ ?_ ?_ hclose
    · rw [htoken, if_neg fun h => happends (hsame.mp h), put_eq hinside.fits]
      rfl
    · rw [lexLoop_word hc, if_neg hfull, if_neg happends]
      rfl
    · exact List.length_dropWhile_le _ rest

theorem turn (h : Holds line s L (c :: rest)) (hroom : s.ntok < SHELL_MAXTOK)
    (hb : ¬IsBlank c) : Turn line s L c rest := by
  have hend : ¬IsEnd c := h.toAt.nonend c List.mem_cons_self
  rcases char_cases c hend with hblank | ⟨typ, ho⟩ | hq | hw
  · exact absurd hblank hb
  · exact turn_operator h hroom ho
  · exact turn_quote h hroom hq
  · exact turn_word h hroom hw

/-!
## The whole line
-/

/-- While another token may come, blanks in front of it do not matter. -/
theorem lexLoop_skip (hroom : ¬SHELL_MAXTOK ≤ L.ntok) (rest : List Char) :
    lexLoop L rest = lexLoop L (rest.dropWhile fun c => IsBlank c) := by
  induction rest with
  | nil => rfl
  | cons c rest ih =>
      rw [List.dropWhile_cons]
      by_cases hb : IsBlank c
      · rw [if_pos (decide_eq_true hb), lexLoop_blank hb, if_neg hroom, ih]
      · rw [if_neg (by simpa using hb)]

theorem Holds.agrees (h : Holds line s L rest) :
    Agrees line (some (.tokens s.ntok s.tbindex s.arrays)) (some L) :=
  .tokens h.ntok_le (h.room.trans (Nat.add_le_add_right h.p_le _)) h.tokbuf h.tok h.toktyp

theorem tokenLoop_ok (h : Holds line s L rest) (hfuel : rest.length < fuel) :
    Agrees line (tokenLoop line.memory fuel s) (lexLoop L rest) := by
  induction fuel generalizing s L rest with
  | zero => omega
  | succ fuel ih =>
      unfold tokenLoop
      simp only [Option.bind_eq_bind]
      rw [h.toAt.read, Option.bind_some]
      cases rest with
      | nil =>
          rw [List.headD_nil, if_pos line.isEnd, lexLoop_end (Or.inl rfl)]
          exact h.agrees
      | cons c rest =>
          have hc : ¬IsEnd c := h.toAt.nonend c List.mem_cons_self
          rw [List.headD_cons, if_neg hc]
          by_cases hfull : SHELL_MAXTOK ≤ s.ntok
          · have hline : ¬IsEnd ((c :: rest).headD NULLCH) := hc
            rw [if_pos hfull, lexLoop_full hline (h.ntok_eq ▸ hfull)]
            exact .syserr
          · have hroom : ¬SHELL_MAXTOK ≤ L.ntok := fun hle => hfull (h.ntok_eq ▸ hle)
            rcases skipBlanks_ok h h.toAt.length_lt with ⟨s', hs', hntok, hskip⟩
            have hlen : ((c :: rest).dropWhile fun c => IsBlank c).length ≤ (c :: rest).length :=
              List.length_dropWhile_le _ _
            have hfirst := List.head?_dropWhile_not (fun c => decide (IsBlank c)) (c :: rest)
            rw [if_neg hfull, hs', Option.bind_some, hskip.toAt.read, Option.bind_some,
              lexLoop_skip hroom]
            cases hdrop : (c :: rest).dropWhile fun c => IsBlank c with
            | nil =>
                rw [hdrop] at hskip
                rw [List.headD_nil, if_pos line.isEnd, lexLoop_end (Or.inl rfl)]
                exact hskip.agrees
            | cons d after =>
                rw [hdrop] at hskip hlen hfirst
                have hd : ¬IsEnd d := hskip.toAt.nonend d List.mem_cons_self
                have hb : ¬IsBlank d := of_decide_eq_false hfirst
                rw [List.headD_cons, if_neg hd]
                cases turn hskip (by omega) hb with
                | syserr hs hL =>
                    rw [hs, hL]
                    exact .syserr
                | counted hs hL hle hnext =>
                    rw [List.length_cons, List.length_cons] at hlen
                    rw [List.length_cons] at hfuel
                    rw [hs, hL]
                    exact ih hnext (by omega)

/-- The analyzer with pointers refines the one without them. -/
theorem lexan_agrees (line : CommandLine) (arrays : Arrays) :
    Agrees line (lexan line.memory arrays) (BbbXinu.lexan line.chars) := by
  have hstart : Holds line { p := 0, ntok := 0, tbindex := 0, arrays } Lex.empty line.chars := {
    p_le := Nat.zero_le _
    rest_eq := rfl
    ntok_le := Nat.zero_le _
    room := Nat.le_refl _
    tokbuf := rfl
    tok := rfl
    toktyp := rfl }
  exact tokenLoop_ok hstart hstart.toAt.length_lt

end

end Lexer

/-!
## The layout of the tokens
-/

/-- A token in the buffer. -/
def ShToken.bytes (t : ShToken) : List Char := t.text ++ [NULLCH]

/-- The tokens in the buffer, one after the other. -/
def tokenBytes (ts : List ShToken) : List Char := ts.flatMap ShToken.bytes

/-- Where a token of the list begins. -/
def tokenStart (ts : List ShToken) (i : Nat) : Nat := (tokenBytes (ts.take i)).length

section

variable {ts : List ShToken} {t : ShToken} {L : Lex} {i j : Nat}

theorem tokenBytes_append (ts us : List ShToken) :
    tokenBytes (ts ++ us) = tokenBytes ts ++ tokenBytes us := List.flatMap_append

theorem tokenBytes_split (hi : i < ts.length) :
    tokenBytes ts = tokenBytes (ts.take i) ++ (ts[i].bytes ++ tokenBytes (ts.drop (i + 1))) := by
  conv =>
    lhs
    rw [← List.take_append_drop i ts, List.drop_eq_getElem_cons hi]
  rw [tokenBytes_append]
  rfl

theorem tokenStart_succ (hi : i < ts.length) :
    tokenStart ts (i + 1) = tokenStart ts i + ts[i].text.length + 1 := by
  unfold tokenStart
  rw [List.take_add_one, List.getElem?_eq_getElem hi, tokenBytes_append, List.length_append]
  change _ + (ts[i].bytes ++ []).length = _
  unfold ShToken.bytes
  rw [List.append_nil, List.length_append, List.length_singleton, Nat.add_assoc]

theorem tokenStart_length (ts : List ShToken) : tokenStart ts ts.length = (tokenBytes ts).length := by
  unfold tokenStart
  rw [List.take_length]

/-- What is in the buffer at a place of a token. -/
theorem tokenBytes_getElem? (hi : i < ts.length) (hj : j ≤ ts[i].text.length) :
    (tokenBytes ts)[tokenStart ts i + j]? = ts[i].bytes[j]? := by
  have hlen : j < ts[i].bytes.length := by
    unfold ShToken.bytes
    rw [List.length_append, List.length_singleton]
    omega
  have hplace : (tokenBytes (ts.take i)).length ≤ tokenStart ts i + j := Nat.le_add_right _ _
  rw [tokenBytes_split hi, List.getElem?_append_right hplace]
  change (ts[i].bytes ++ _)[tokenStart ts i + j - tokenStart ts i]? = _
  rw [Nat.add_sub_cancel_left, List.getElem?_append_left hlen]

theorem Lex.add_concat (L : Lex) (ts : List ShToken) (t : ShToken) :
    L.add (ts ++ [t]) = (L.add ts).token t.typ t.text := by
  unfold Lex.add
  rw [List.foldl_append]
  rfl

/-- The analyzer's buffer and arrays for a list of tokens. -/
theorem Lex.add_layout (ts : List ShToken) :
    (Lex.empty.add ts).tokbuf = tokenBytes ts ∧
      (Lex.empty.add ts).tok = front (tokenStart ts) ts.length ∧
      (Lex.empty.add ts).toktyp = ts.map ShToken.typ := by
  induction ts using List.reverseRecOn with
  | nil => exact ⟨rfl, rfl, rfl⟩
  | append_singleton ts t ih =>
      rcases ih with ⟨hbuf, htok, htyp⟩
      have hstart : front (tokenStart (ts ++ [t])) ts.length = front (tokenStart ts) ts.length := by
        apply front_congr
        intro i hi
        unfold tokenStart
        rw [List.take_append_of_le_length hi.le]
      rw [Lex.add_concat]
      refine ⟨?_, ?_, ?_⟩
      · change (Lex.empty.add ts).tokbuf ++ t.text ++ [NULLCH] = _
        rw [hbuf, tokenBytes_append, List.append_assoc]
        change _ = _ ++ (t.bytes ++ [])
        rw [List.append_nil]
        rfl
      · change (Lex.empty.add ts).tok ++ [(Lex.empty.add ts).tokbuf.length] = _
        rw [hbuf, htok, List.length_append, List.length_singleton, front_succ, hstart]
        unfold tokenStart
        rw [List.take_left]
      · change (Lex.empty.add ts).toktyp ++ [t.typ] = _
        rw [htyp, List.map_append, List.map_singleton]

/-- A line without errors has the layout of its tokens, which have no null characters. -/
theorem lexan_layout {line : List Char} (h : lexan line = some L) :
    ∃ ts, L = Lex.empty.add ts ∧ ∀ t ∈ ts, NULLCH ∉ t.text := by
  rcases scans_of_lexan h with ⟨ts, e, hscans, hL⟩
  refine ⟨ts, hL, ?_⟩
  intro t ht hmem
  exact lineText_not_end line NULLCH (hscans.mem_line t ht NULLCH hmem) (Or.inl rfl)

end

namespace Lexer

section

variable {line : CommandLine} {a : Arrays} {ts : List ShToken} {ntok tlen : Nat}

/-- Arrays with the layout of a list of tokens. -/
theorem laid_of_tokens (hnull : ∀ t ∈ ts, NULLCH ∉ t.text)
    (hbuf : front a.tokbuf tlen = tokenBytes ts)
    (htok : front a.tok ntok = front (tokenStart ts) ts.length) : a.Laid ntok tlen := by
  have hntok : ntok = ts.length := by
    have hlen := congrArg List.length htok
    rw [length_front, length_front] at hlen
    exact hlen
  have htlen : tlen = tokenStart ts ts.length := by
    rw [tokenStart_length, ← hbuf, length_front]
  have hstart : ∀ i < ntok, a.tok i = tokenStart ts i := fun i hi => by
    have hget := front_get htok hi
    rw [front_get rfl (hntok ▸ hi)] at hget
    exact (Option.some.inj hget).symm
  have hstop : ∀ i < ntok, a.stop ntok tlen i = tokenStart ts (i + 1) := fun i hi => by
    unfold Arrays.stop
    by_cases hlast : i + 1 < ntok
    · rw [if_pos hlast, hstart _ hlast]
    · have heq : i + 1 = ts.length := by omega
      rw [if_neg hlast, htlen, heq]
  have hle : ∀ i < ntok, tokenStart ts (i + 1) ≤ tlen := fun i hi => by
    rw [htlen]
    unfold tokenStart
    rw [List.take_length, ← List.take_append_drop (i + 1) ts, tokenBytes_append,
      List.length_append, List.take_append_drop]
    exact Nat.le_add_right _ _
  refine ⟨?_, ?_, ?_⟩
  · intro hzero
    rw [htlen, ← hntok, hzero]
    rfl
  · exact fun hpos => hstart 0 hpos
  · intro i hi
    have hits : i < ts.length := hntok ▸ hi
    have hsucc := tokenStart_succ hits
    have hend := hle i hi
    have hread : ∀ j ≤ ts[i].text.length,
        some (a.tokbuf (tokenStart ts i + j)) = ts[i].bytes[j]? := fun j hj => by
      rw [← tokenBytes_getElem? hits hj, ← front_get hbuf (by omega)]
    refine ⟨tokenStart ts i + ts[i].text.length, ?_, ?_, ?_, ?_⟩
    · rw [hstop i hi, hsucc]
    · rw [hstart i hi]
      exact Nat.le_add_right _ _
    · have hlast := hread _ (Nat.le_refl _)
      unfold ShToken.bytes at hlast
      rw [List.getElem?_concat_length] at hlast
      exact Option.some.inj hlast
    · intro j hj hlt hzero
      rw [hstart i hi] at hj
      have hplace : tokenStart ts i + (j - tokenStart ts i) = j := by omega
      have hlt' : j - tokenStart ts i < ts[i].text.length := by omega
      have hchar := hread (j - tokenStart ts i) hlt'.le
      unfold ShToken.bytes at hchar
      rw [hplace, List.getElem?_append_left hlt', List.getElem?_eq_getElem hlt', hzero] at hchar
      exact hnull _ (List.getElem_mem hits) (Option.some.inj hchar ▸ List.getElem_mem hlt')

/-- The analyzer stays inside its buffers on every line that fits into the shell's buffer. -/
theorem lexan_in_buffers (line : CommandLine) (arrays : Arrays) :
    Result.Safe (lexan line.memory arrays) := by
  have hagrees := lexan_agrees line arrays
  generalize hr : lexan line.memory arrays = r at hagrees
  generalize hL : BbbXinu.lexan line.chars = L at hagrees
  cases hagrees with
  | syserr => trivial
  | @tokens ntok tlen a L hntok htlen hbuf htok htyp =>
      rcases lexan_layout hL with ⟨ts, rfl, hnull⟩
      rcases Lex.add_layout ts with ⟨htsbuf, htstok, _⟩
      have hshort := line.short
      exact ⟨hntok, by omega, laid_of_tokens hnull (hbuf.trans htsbuf) (htok.trans htstok)⟩

end

end Lexer

end BbbXinu
