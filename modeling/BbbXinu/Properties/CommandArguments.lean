import BbbXinu.Invariant.PacketBytes
import BbbXinu.Properties.CreateFailure
import BbbXinu.Properties.ShellSyntax

/-!
# The arguments that a command gets

The initial frame of a command takes 15 words at the high end of its stack, and the vector
and the strings take at most a few hundred bytes at the low end, so they do not meet.
-/

namespace BbbXinu

open Net

/-- A line that the shell goes on with, and what it found. -/
structure ParsedLine where
  line : CommandLine
  lex : Lex
  command : Command
  lexed : lexan line.chars = some lex
  looked : lex.parse = .lookup command

/-- The arguments of the command. -/
def ParsedLine.words (p : ParsedLine) : List (List Char) :=
  (List.range p.command.ntok).map fun i => p.lex.string (p.lex.start i)

/-- What the shell creates a child with, and a stack for it in memory. -/
structure Placed (p : ParsedLine) where
  mem : Memory
  saddr : Nat
  procaddr : UInt32
  initret : UInt32
  dummy : UInt32
  low : SHELL_CMDSTK ≤ saddr + 4
  high : saddr + 4 ≤ 4294967296

/-- The dummy argument is on the stack only once. -/
structure Spawned (p : ParsedLine) extends Placed p where
  once : (Child.frame procaddr initret [UInt32.ofNat p.command.ntok, dummy]).count dummy = 1

namespace Placed

variable {p : ParsedLine} (s : Placed p)

/-- The child as {lit}`create` leaves it. -/
def child : Child :=
  Child.create s.mem s.saddr SHELL_CMDSTK s.procaddr s.initret
    [UInt32.ofNat p.command.ntok, s.dummy]

/-- The call of {lit}`addargs`. -/
def addargs : Int × Child :=
  s.child.addargs p.command.ntok p.lex.start p.command.tlen p.lex.tokbuf s.dummy

end Placed

namespace Child

/-- The second argument of a process that has not run. -/
def argv (c : Child) : Nat := (get32 c.mem (c.prstkptr + 12)).toNat

/-- The place has a copy of a string, with its null byte. -/
def HasString (c : Child) (place : Nat) (text : List Char) : Prop :=
  ∀ j (h : j < (text ++ [NULLCH]).length), c.mem (place + j) = byte (text ++ [NULLCH])[j]

/-- The second argument points to a vector with the strings, in the stack and below the
initial frame; of the frame nothing else has changed, and nothing outside of the stack. -/
structure Passed (c c' : Child) (words : List (List Char)) : Prop where
  prstkptr : c'.prstkptr = c.prstkptr
  low : c.prstkbase + 4 ≤ c'.argv + c.prstklen
  high : c'.argv + 4 * (words.length + 1) ≤ c.prstkptr
  entries : ∀ i (h : i < words.length), ∃ place,
    get32 c'.mem (c'.argv + 4 * i) = UInt32.ofNat place ∧ place < 4294967296 ∧
      c'.argv + 4 * (words.length + 1) ≤ place ∧ place + words[i].length + 1 ≤ c.prstkptr ∧
      c'.HasString place words[i]
  last : get32 c'.mem (c'.argv + 4 * words.length) = 0
  frame : ∀ i, c.prstkptr ≤ i → i < c.prstkptr + 12 ∨ c.prstkptr + 16 ≤ i → c'.mem i = c.mem i
  below : ∀ i, i + c.prstklen < c.prstkbase + 4 → c'.mem i = c.mem i

/-!
## The initial frame
-/

section Frame

variable {c : Child} {words : List UInt32} {i : Nat}

/-- What some pushes do. -/
structure Pushed (c c' : Child) (words : List UInt32) : Prop where
  prstkbase : c'.prstkbase = c.prstkbase
  prstklen : c'.prstklen = c.prstklen
  prstkptr : c'.prstkptr + 4 * words.length = c.prstkptr
  words : ∀ i (h : i < words.length), get32 c'.mem (c.prstkptr - 4 * (i + 1)) = words[i]

theorem pushAll_pushed (c : Child) (h : 4 * words.length ≤ c.prstkptr) :
    Pushed c (c.pushAll words) words := by
  induction words using List.reverseRecOn with
  | nil => exact ⟨rfl, rfl, rfl, fun i hi => absurd hi (Nat.not_lt_zero i)⟩
  | append_singleton ws w ih =>
      rw [List.length_append, List.length_singleton] at h
      have hws := ih (by omega)
      have hptr := hws.prstkptr
      have hpush : c.pushAll (ws ++ [w]) = (c.pushAll ws).push w := List.foldl_append
      have hplace : (c.pushAll ws).prstkptr - 4 = c.prstkptr - 4 * (ws.length + 1) := by omega
      rw [hpush]
      refine ⟨hws.prstkbase, hws.prstklen, ?_, ?_⟩
      · rw [List.length_append, List.length_singleton]
        change (c.pushAll ws).prstkptr - 4 + _ = _
        omega
      · intro i hi
        rw [List.length_append, List.length_singleton] at hi
        change get32 (set32 (c.pushAll ws).mem ((c.pushAll ws).prstkptr - 4) w) _ = _
        rw [hplace]
        by_cases hlast : i < ws.length
        · rw [List.getElem_append_left hlast, ← hws.words i hlast]
          exact get32_congr fun k hk => set32_of_ne (by omega)
        · obtain rfl : i = ws.length := by omega
          rw [List.getElem_concat_length rfl]
          exact get32_set32

/-- What the vector holds, and what is left of the rest of the memory. -/
theorem storeArgs_spec (mem : Memory) (argloc argstr : Nat) (tok : Nat → Nat) (n : Nat) :
    (∀ i < n, get32 (storeArgs mem argloc argstr tok n) (argloc + 4 * i) =
        UInt32.ofNat (argstr + tok i)) ∧
      ∀ i, i < argloc ∨ argloc + 4 * n ≤ i → storeArgs mem argloc argstr tok n i = mem i := by
  induction n with
  | zero => exact ⟨fun i hi => absurd hi (Nat.not_lt_zero i), fun i _ => rfl⟩
  | succ n ih =>
      rcases ih with ⟨hentries, hrest⟩
      constructor
      · intro i hi
        by_cases hlast : i < n
        · rw [← hentries i hlast]
          exact get32_congr fun k hk => set32_of_ne (by omega)
        · obtain rfl : i = n := by omega
          exact get32_set32
      · intro i hi
        rw [← hrest i (by omega)]
        exact set32_of_ne (by omega)

/-- The search stops at the dummy argument or before it. -/
theorem search_found {mem : Memory} {dummy : UInt32} {base fuel place k : Nat} (hfuel : k < fuel)
    (hinside : place + 4 * k < base) (hword : get32 mem (place + 4 * k) = dummy) :
    ∃ found, search mem dummy base fuel place = some found := by
  induction fuel generalizing place k with
  | zero => exact absurd hfuel (Nat.not_lt_zero k)
  | succ fuel ih =>
      unfold search
      rw [if_pos (by omega)]
      by_cases hhere : get32 mem place = dummy
      · rw [if_pos hhere]
        exact ⟨place, rfl⟩
      · rw [if_neg hhere]
        cases k with
        | zero => exact absurd hword hhere
        | succ k =>
            have hplace : place + 4 * (k + 1) = place + 4 + 4 * k := by omega
            rw [hplace] at hinside hword
            exact ih (by omega) hinside hword

end Frame

end Child

/-!
## The tokens of a line
-/

namespace ParsedLine

variable (p : ParsedLine)

theorem words_get {i : Nat} (h : i < p.words.length) :
    p.words[i] = p.lex.string (p.lex.start i) := by
  simp [words]

/-- The shell has found a command. -/
theorem exists_shellLine : ∃ g : ShellLine, p.lex = layout g.tokens ∧
    Describes g.tokens g p.command := by
  rcases lexan_is_layout p.lexed with ⟨toks, hlex⟩
  have hlooked := p.looked
  rw [hlex] at hlooked
  rcases parse_sound hlooked with ⟨g, rfl⟩
  rcases parse_complete g with ⟨c, hc, hdescribes⟩
  have hsame : c = p.command := Parse.lookup.inj (hc.symm.trans hlooked)
  exact ⟨g, hlex, hsame ▸ hdescribes⟩

theorem ntok_pos : 0 < p.command.ntok := by
  rcases p.exists_shellLine with ⟨g, _, hdescribes⟩
  rw [hdescribes.ntok]
  exact List.length_pos_of_ne_nil g.nonempty

/-- The tokens fit into the arrays of the shell. -/
theorem bounds : p.command.ntok ≤ SHELL_MAXTOK ∧
    p.command.tlen ≤ SHELL_BUFLEN + SHELL_MAXTOK := by
  rcases p.exists_shellLine with ⟨g, hlex, hdescribes⟩
  have hagrees := Lexer.lexan_agrees p.line ⟨fun _ => NULLCH, fun _ => 0, fun _ => .other⟩
  rw [p.lexed] at hagrees
  generalize Lexer.lexan p.line.memory _ = r at hagrees
  generalize hL : some p.lex = L at hagrees
  cases hagrees with
  | syserr => cases hL
  | @tokens ntok tlen a L hntok htlen hbuf htok htyp =>
      cases hL
      have hshort := p.line.short
      have hlen : tlen = p.lex.tokbuf.length := by rw [← hbuf, Scatter.length_front]
      have hcount : ntok = g.tokens.length := by
        rw [← layout_ntok, ← hlex]
        unfold Lex.ntok
        rw [← htok, Scatter.length_front]
      have hwords : p.command.ntok ≤ ntok := by
        rw [hdescribes.ntok, hcount]
        unfold ShellLine.tokens ShellLine.wordTokens
        rw [List.length_append, List.length_append, List.length_map]
        omega
      have htaken := congrArg List.length hdescribes.tokbuf
      rw [← hlex, ← hdescribes.tlen, List.length_take] at htaken
      omega

/-- A token lies in the buffer at its index. -/
theorem token_bytes {i : Nat} (hi : i < p.command.ntok) :
    p.lex.start i + (p.lex.string (p.lex.start i)).length + 1 ≤ p.command.tlen ∧
      ∀ j (h : j < (p.lex.string (p.lex.start i) ++ [NULLCH]).length),
        p.lex.tokbuf.getD (p.lex.start i + j) NULLCH =
          (p.lex.string (p.lex.start i) ++ [NULLCH])[j] := by
  rcases p.exists_shellLine with ⟨g, hlex, hdescribes⟩
  have hword : i < g.wordTokens.length := by
    unfold ShellLine.wordTokens
    rw [List.length_map, ← hdescribes.ntok]
    exact hi
  have hsplit : g.wordTokens =
      g.wordTokens.take i ++ g.wordTokens[i] :: g.wordTokens.drop (i + 1) := by
    rw [← List.drop_eq_getElem_cons hword, List.take_append_drop]
  have htoks : g.tokens = g.wordTokens.take i ++ g.wordTokens[i] ::
      (g.wordTokens.drop (i + 1) ++
        (g.redirections.tokens ++ if g.background then [CmdToken.amper] else [])) := by
    rw [← List.cons_append, ← List.append_assoc, ← hsplit, ← List.append_assoc]
    rfl
  have hlen : (g.wordTokens.take i).length = i := List.length_take_of_le hword.le
  have hstart := start_eq htoks
  have hstring := string_eq htoks
  rw [hlen, ← hlex] at hstart
  rw [← hlex, ← hstart] at hstring
  have hbytes : g.wordTokens[i].token.bytes = p.lex.string (p.lex.start i) ++ [NULLCH] := by
    rw [hstring]
    rfl
  constructor
  · have hend := congrArg List.length (congrArg bytesOf hsplit)
    rw [← List.singleton_append, bytesOf_append, bytesOf_append, bytesOf_singleton, hbytes,
      List.length_append, List.length_append, List.length_append, List.length_singleton,
      ← hdescribes.tlen, ← hstart] at hend
    omega
  · intro j hj
    have hbuf : p.lex.tokbuf = bytesOf (g.wordTokens.take i) ++
        ((p.lex.string (p.lex.start i) ++ [NULLCH]) ++ bytesOf (g.wordTokens.drop (i + 1) ++
          (g.redirections.tokens ++ if g.background then [CmdToken.amper] else []))) := by
      rw [← hbytes, ← bytesOf_singleton, ← bytesOf_append, ← bytesOf_append, List.singleton_append,
        ← htoks, hlex]
      exact layout_tokbuf g.tokens
    have hplace : p.lex.start i + j - (bytesOf (g.wordTokens.take i)).length = j := by omega
    rw [List.getD_eq_getElem?_getD, hbuf, List.getElem?_append_right (by omega), hplace,
      List.getElem?_append_left hj, List.getElem?_eq_getElem hj, Option.getD_some]

end ParsedLine

/-!
## The call
-/

namespace Placed

variable {p : ParsedLine} (s : Placed p)

/-- The words that are pushed, the first one at the highest address. -/
theorem frame_eq : Child.frame s.procaddr s.initret [UInt32.ofNat p.command.ntok, s.dummy] =
    [s.procaddr, 0, 0, 0, 0, 0, 0, 0, 0, 0, 0, s.dummy, UInt32.ofNat p.command.ntok, s.initret,
      0x53] := rfl

theorem child_pushed : Child.Pushed
    { prstkbase := s.saddr, prstklen := SHELL_CMDSTK, prstkptr := s.saddr,
      mem := set32 s.mem s.saddr STACKMAGIC } s.child
    (Child.frame s.procaddr s.initret [UInt32.ofNat p.command.ntok, s.dummy]) := by
  have hlow := s.low
  apply Child.pushAll_pushed
  rw [s.frame_eq]
  change 60 ≤ s.saddr
  unfold SHELL_CMDSTK at hlow
  omega

theorem prstkptr_eq : s.child.prstkptr + 60 = s.saddr := s.child_pushed.prstkptr

/-- A word of the initial frame, counted from the stack pointer. -/
theorem word_eq {k : Nat} (hk : k < 15) :
    get32 s.child.mem (s.child.prstkptr + 4 * k) =
      [s.procaddr, 0, 0, 0, 0, 0, 0, 0, 0, 0, 0, s.dummy, UInt32.ofNat p.command.ntok, s.initret,
        0x53].getD (14 - k) 0 := by
  have hword := s.child_pushed.words (14 - k) (by rw [s.frame_eq]; change 14 - k < 15; omega)
  have hplace : s.saddr - 4 * (14 - k + 1) = s.child.prstkptr + 4 * k := by
    have hptr := s.prstkptr_eq
    omega
  rw [← hplace]
  refine hword.trans ?_
  rw [List.getD_eq_getElem _ _ (by change 14 - k < 15; omega)]
  rfl

/-- Where the vector and the strings are put. -/
def argloc : Nat := roundew (uint32 ((s.saddr : Int) - SHELL_CMDSTK + 4))

def argstr : Nat := s.argloc + 4 * (p.command.ntok + 1)

/-- The memory with the vector and the strings. -/
def filled : Memory :=
  CStrings.copy
    (set32 (Child.storeArgs s.child.mem s.argloc s.argstr p.lex.start p.command.ntok)
      (s.argloc + 4 * p.command.ntok) 0)
    s.argstr (fun i => Child.byte (p.lex.tokbuf.getD i NULLCH)) 0 p.command.tlen

theorem argloc_bounds : s.saddr + 4 ≤ s.argloc + SHELL_CMDSTK ∧
    s.argloc + SHELL_CMDSTK ≤ s.saddr + 7 := by
  have hlow := s.low
  have hhigh := s.high
  unfold argloc roundew uint32
  unfold SHELL_CMDSTK at *
  omega

/-- What is put on the stack ends below the initial frame. -/
theorem argstr_bound : s.argstr + p.command.tlen + 7000 ≤ s.child.prstkptr := by
  have hloc := s.argloc_bounds
  have hptr := s.prstkptr_eq
  rcases p.bounds with ⟨hntok, htlen⟩
  unfold argstr
  unfold SHELL_CMDSTK at hloc
  unfold SHELL_BUFLEN SHELL_MAXTOK Tty.TY_IBUFLEN at htlen
  unfold SHELL_MAXTOK at hntok
  omega

theorem filled_outside {i : Nat} (h : i < s.argloc ∨ s.argstr + p.command.tlen ≤ i) :
    s.filled i = s.child.mem i := by
  have hstr : s.argstr = s.argloc + 4 * (p.command.ntok + 1) := rfl
  have hstore := (Child.storeArgs_spec s.child.mem s.argloc s.argstr p.lex.start
    p.command.ntok).2 i (by omega)
  have hlast : set32 (Child.storeArgs s.child.mem s.argloc s.argstr p.lex.start p.command.ntok)
      (s.argloc + 4 * p.command.ntok) 0 i = s.child.mem i := by
    rw [← hstore]
    exact set32_of_ne (by omega)
  rw [← hlast]
  unfold filled
  cases h with
  | inl hlow => exact CStrings.copy_of_lt (by omega)
  | inr hhigh => exact CStrings.copy_of_le hhigh

theorem filled_vector {i : Nat} (h : i < p.command.ntok) :
    get32 s.filled (s.argloc + 4 * i) = UInt32.ofNat (s.argstr + p.lex.start i) := by
  have hstr : s.argstr = s.argloc + 4 * (p.command.ntok + 1) := rfl
  rw [← (Child.storeArgs_spec s.child.mem s.argloc s.argstr p.lex.start p.command.ntok).1 i h]
  apply get32_congr
  intro k hk
  unfold filled
  rw [CStrings.copy_of_lt (by omega)]
  exact set32_of_ne (by omega)

theorem filled_last : get32 s.filled (s.argloc + 4 * p.command.ntok) = 0 := by
  have hstr : s.argstr = s.argloc + 4 * (p.command.ntok + 1) := rfl
  have hcopy : get32 s.filled (s.argloc + 4 * p.command.ntok) =
      get32 (set32 (Child.storeArgs s.child.mem s.argloc s.argstr p.lex.start p.command.ntok)
        (s.argloc + 4 * p.command.ntok) 0) (s.argloc + 4 * p.command.ntok) := by
    apply get32_congr
    intro k hk
    exact CStrings.copy_of_lt (by omega)
  exact hcopy.trans get32_set32

theorem filled_string {j : Nat} (h : j < p.command.tlen) :
    s.filled (s.argstr + j) = Child.byte (p.lex.tokbuf.getD j NULLCH) := by
  unfold filled
  rw [CStrings.copy_inside (Nat.le_add_right _ _) (Nat.add_lt_add_left h _), Nat.zero_add,
    Nat.add_sub_cancel_left]

theorem addargs_found {place : Nat} (hsearch : Child.search s.filled s.dummy s.saddr
    (s.saddr - s.child.prstkptr) s.child.prstkptr = some place) :
    s.addargs = (OK, { s.child with mem := set32 s.filled place (UInt32.ofNat s.argloc) }) := by
  have hpos := p.ntok_pos
  have hguard : ¬((p.command.ntok : Int) ≤ 0 ∨ (p.command.tlen : Int) < 0) := by omega
  have hbase : s.child.prstkbase = s.saddr := s.child_pushed.prstkbase
  have hlen : s.child.prstklen = SHELL_CMDSTK := s.child_pushed.prstklen
  unfold addargs Child.addargs
  rw [if_neg hguard, hbase, hlen]
  dsimp only
  rw [Int.toNat_natCast, Int.toNat_natCast]
  split
  · rename_i other hother
    cases hsearch.symm.trans hother
    rfl
  · rename_i hnone
    cases hsearch.symm.trans hnone

/-- The dummy argument is on the stack, so the call does not fail. -/
theorem addargs_ok : s.addargs.1 = OK := by
  have hptr := s.prstkptr_eq
  have hbound := s.argstr_bound
  have hdummy : get32 s.filled (s.child.prstkptr + 4 * 3) = s.dummy := by
    have hword : get32 s.child.mem (s.child.prstkptr + 4 * 3) = s.dummy := s.word_eq (by decide)
    rw [← hword]
    exact get32_congr fun k _ => s.filled_outside (Or.inr (by omega))
  have hfound : ∃ place, Child.search s.filled s.dummy s.saddr (s.saddr - s.child.prstkptr)
      s.child.prstkptr = some place := Child.search_found (k := 3) (by omega) (by omega) hdummy
  rcases hfound with ⟨place, hsearch⟩
  rw [s.addargs_found hsearch]

end Placed

namespace Spawned

variable {p : ParsedLine} (s : Spawned p)

/-- No word below the dummy argument is equal to it. -/
theorem distinct : s.dummy ≠ UInt32.ofNat p.command.ntok ∧ s.dummy ≠ s.initret ∧
    s.dummy ≠ 0x53 := by
  have honce := s.once
  rw [s.frame_eq] at honce
  simp only [List.count_cons, List.count_nil, beq_iff_eq] at honce
  refine ⟨?_, ?_, ?_⟩
  · intro heq
    rw [if_pos heq.symm] at honce
    simp only [if_true] at honce
    omega
  · intro heq
    rw [if_pos heq.symm] at honce
    simp only [if_true] at honce
    omega
  · intro heq
    rw [if_pos heq.symm] at honce
    simp only [if_true] at honce
    omega

/-- The dummy argument is found in a memory that has the initial frame. -/
theorem search_eq {mem : Memory}
    (hsame : ∀ i, s.child.prstkptr ≤ i → i < s.child.prstkptr + 60 → mem i = s.child.mem i) :
    Child.search mem s.dummy s.saddr (s.saddr - s.child.prstkptr) s.child.prstkptr =
      some (s.child.prstkptr + 12) := by
  have hptr := s.prstkptr_eq
  have hword : ∀ k < 15, get32 mem (s.child.prstkptr + 4 * k) =
      [s.procaddr, 0, 0, 0, 0, 0, 0, 0, 0, 0, 0, s.dummy, UInt32.ofNat p.command.ntok, s.initret,
        0x53].getD (14 - k) 0 := fun k hk => by
    rw [← s.word_eq hk]
    exact get32_congr fun j hj => hsame _ (by omega) (by omega)
  have hfuel : s.saddr - s.child.prstkptr = 60 := by omega
  have hbefore : ∀ k < 3, get32 mem (s.child.prstkptr + 4 * k) ≠ s.dummy := fun k hk => by
    rcases s.distinct with ⟨hntok, hinitret, hstatus⟩
    rw [hword k (by omega)]
    interval_cases k
    · exact hstatus.symm
    · exact hinitret.symm
    · exact hntok.symm
  have hskip : ∀ k < 3, ∀ fuel, Child.search mem s.dummy s.saddr (fuel + 1)
      (s.child.prstkptr + 4 * k) =
        Child.search mem s.dummy s.saddr fuel (s.child.prstkptr + 4 * (k + 1)) := fun k hk fuel => by
    have hinside : s.child.prstkptr + 4 * k < s.saddr := by omega
    conv =>
      lhs
      unfold Child.search
    rw [if_pos hinside, if_neg (hbefore k hk)]
    rfl
  have hfound : Child.search mem s.dummy s.saddr 57 (s.child.prstkptr + 4 * 3) =
      some (s.child.prstkptr + 12) := by
    have hinside : s.child.prstkptr + 4 * 3 < s.saddr := by omega
    have hdummy : get32 mem (s.child.prstkptr + 4 * 3) = s.dummy := hword 3 (by decide)
    unfold Child.search
    rw [if_pos hinside, if_pos hdummy]
  rw [hfuel]
  exact ((hskip 0 (by decide) 59).trans (hskip 1 (by decide) 58)).trans
    ((hskip 2 (by decide) 57).trans hfound)

theorem addargs_eq : s.addargs = (OK, { s.child with
    mem := set32 s.filled (s.child.prstkptr + 12) (UInt32.ofNat s.argloc) }) :=
  s.addargs_found (s.search_eq fun _ hi _ =>
    s.filled_outside (Or.inr ((Nat.le_add_right _ _).trans (s.argstr_bound.trans hi))))

/-- Every command of the shell gets its arguments. -/
theorem addargs_passes : s.addargs.1 = OK ∧ Child.Passed s.child s.addargs.2 p.words := by
  have hbound := s.argstr_bound
  have hptr := s.prstkptr_eq
  have hhigh := s.high
  have hstr : s.argstr = s.argloc + 4 * (p.command.ntok + 1) := rfl
  have hlen : p.words.length = p.command.ntok := by
    unfold ParsedLine.words
    rw [List.length_map, List.length_range]
  rw [s.addargs_eq]
  have hout : ∀ i, i < s.child.prstkptr + 12 ∨ s.child.prstkptr + 16 ≤ i →
      set32 s.filled (s.child.prstkptr + 12) (UInt32.ofNat s.argloc) i = s.filled i :=
    fun i hi => set32_of_ne (by omega)
  have hword : ∀ a, a + 4 ≤ s.child.prstkptr →
      get32 (set32 s.filled (s.child.prstkptr + 12) (UInt32.ofNat s.argloc)) a =
        get32 s.filled a := fun a ha => get32_congr fun k hk => hout _ (by omega)
  have hargv : Child.argv { s.child with
      mem := set32 s.filled (s.child.prstkptr + 12) (UInt32.ofNat s.argloc) } = s.argloc := by
    unfold Child.argv
    dsimp only
    rw [get32_set32, UInt32.toNat_ofNat']
    exact Nat.mod_eq_of_lt (by omega)
  refine ⟨rfl, rfl, ?_, ?_, ?_, ?_, ?_, ?_⟩
  · rw [hargv, s.child_pushed.prstkbase, s.child_pushed.prstklen]
    exact s.argloc_bounds.1
  · rw [hargv, hlen]
    omega
  · intro i hi
    rw [hlen] at hi
    rcases p.token_bytes hi with ⟨hend, hbytes⟩
    rw [hargv, hlen, p.words_get]
    refine ⟨s.argstr + p.lex.start i, ?_, by omega, by omega, by omega, ?_⟩
    · exact (hword _ (by omega)).trans (s.filled_vector hi)
    · intro j hj
      have hlt : p.lex.start i + j < p.command.tlen := by
        rw [List.length_append, List.length_singleton] at hj
        omega
      dsimp only
      rw [hout _ (by omega), Nat.add_assoc, s.filled_string hlt, hbytes j hj]
  · rw [hargv, hlen]
    exact (hword _ (by omega)).trans s.filled_last
  · intro i hi hne
    exact (hout i hne).trans (s.filled_outside (by omega))
  · intro i hi
    have hloc := s.argloc_bounds
    rw [s.child_pushed.prstkbase, s.child_pushed.prstklen] at hi
    dsimp only at hi ⊢
    rw [hout i (by omega)]
    exact s.filled_outside (by omega)

end Spawned

/-- The line {lit}`ls`. -/
def lsLine : ParsedLine where
  line := {
    chars := ['l', 's']
    terminator := SH_NEWLINE
    nonend := forall_of_all (by decide)
    short := by decide
    isEnd := isEnd_newline }
  lex := { tokbuf := ['l', 's', NULLCH], tok := [0], toktyp := [.other] }
  command := { ntok := 1, tlen := 3, backgnd := false, inname := none, outname := none }
  lexed := by
    have hword := lexLoop_words (L := Lex.empty) (w := ['l', 's']) (p := []) (by decide)
      (forall_of_all (by decide)) (by decide)
    have hroom : ¬SHELL_MAXTOK ≤ Lex.empty.ntok := by decide
    have hends : ¬Appends (([] : List Char).headD NULLCH) := by decide
    rw [if_neg hroom, if_neg hends] at hword
    exact hword.trans (lexLoop_end (Or.inl rfl))
  looked := by decide

def lsChild : Spawned lsLine where
  mem := fun _ => 0
  saddr := 0x21ffc
  procaddr := 0x8000
  initret := 0x8100
  dummy := 0x1f000
  low := by decide
  high := by decide
  once := by decide

theorem addargs_passes_ls :
    lsChild.addargs.1 = OK ∧ Child.Passed lsChild.child lsChild.addargs.2 lsLine.words :=
  lsChild.addargs_passes

/-!
## The stack of a child
-/

/-- A child of the shell has a stack of the size asked for, which lies in memory. -/
theorem create_stack {k : Xinu} (hfree : k.mem.FreeList 0 k.mem.freeList)
    (hpid : (k.create SHELL_CMDSTK SHELL_CMDPRIO).retval k.currpid ≠ SYSERR) :
    ∃ pid e, (k.create SHELL_CMDSTK SHELL_CMDPRIO).retval k.currpid = pid ∧
      (k.create SHELL_CMDSTK SHELL_CMDPRIO).proctab pid = e ∧ e.prstklen = SHELL_CMDSTK ∧
      SHELL_CMDSTK ≤ e.prstkbase + 4 ∧ e.prstkbase + 4 ≤ 4294967296 := by
  have hstack : ∀ saddr, (k.newStack SHELL_CMDSTK).1 = some saddr →
      SHELL_CMDSTK ≤ saddr + 4 ∧ saddr + 4 ≤ 4294967296 := by
    intro saddr hsaddr
    have hsize : roundmb (stackSize SHELL_CMDSTK) = 8192 := by decide
    rcases getstk_ok hfree (k.envtab EV_MEMALLOC) (Or.inl (hsize ▸ (by decide : 0 < 8192))) with
      ⟨a, m', L', heq, htakes⟩ | ⟨heq, _⟩
    · rcases htakes.within with ⟨b, hb, hlow, hhigh⟩
      have hpos := hfree.pos b hb
      have hstop := hfree.stop_le b hb
      unfold Xinu.newStack at hsaddr
      rw [heq] at hsaddr
      have hsaddr' := Option.some.inj hsaddr
      unfold Span.stop at hhigh hstop
      rw [hsize] at hsaddr' hhigh
      unfold uint32 at hsaddr'
      unfold SHELL_CMDSTK
      dsimp only at hlow hhigh
      omega
    · unfold Xinu.newStack at hsaddr
      rw [heq] at hsaddr
      cases hsaddr
  have hnew : k.mem.getstk (k.envtab EV_MEMALLOC) (roundew
      (if SHELL_CMDSTK < MINSTK then MINSTK else SHELL_CMDSTK)) = k.newStack SHELL_CMDSTK := rfl
  have hround : roundew (if SHELL_CMDSTK < MINSTK then MINSTK else SHELL_CMDSTK) = SHELL_CMDSTK := by
    decide
  unfold Xinu.create at hpid ⊢
  dsimp only at hpid ⊢
  rw [hnew] at hpid ⊢
  cases hstk : (k.newStack SHELL_CMDSTK).1 with
  | none =>
      rw [hstk] at hpid
      exact absurd upd_self hpid
  | some saddr =>
      rw [hstk] at hpid
      rcases newpid_cases (k.setMem (k.newStack SHELL_CMDSTK).2) with ⟨next, hnext, _⟩
      dsimp only at hpid ⊢
      rw [hnext] at hpid ⊢
      split at hpid
      · exact absurd upd_self hpid
      · rename_i hsome
        rw [if_neg hsome]
        split at hpid
        · exact absurd upd_self hpid
        · rename_i hprio
          rw [if_neg hprio]
          rw [hround]
          exact ⟨_, _, upd_self, upd_self, rfl, hstack saddr hstk⟩

end BbbXinu
