import BbbXinu.Properties.CommandArguments

/-!
# What a failed command leaves behind

The shell gives nothing back before it goes on with the next line.  A file that it has
opened for a redirection stays open when the other file cannot be opened, or when the
process cannot be created.
-/

namespace BbbXinu

namespace LineState

/-- Nothing that was acquired for the line is left: no device is open, and no process is in
the process table. -/
def Clean (t : LineState) : Prop :=
  t.opened = [] ∧ ∀ pid ∈ t.created, (t.xinu.proctab pid).prstate = .free

variable {t : LineState} {env : ShellEnv} {dev : Int} {L : Lex} {c : Command} {e : CmdEnt}

/-- The result of an attempt to open the file of a redirection. -/
def openName (env : ShellEnv) (L : Lex) (mode : List Char) (name : Nat) : Int :=
  env.opens (cstring (L.tokbuf.drop name)) mode

/-- The first redirection of the command, the input before the output, can be opened. -/
def FirstOpens (env : ShellEnv) (L : Lex) (c : Command) : Prop :=
  (∃ name, c.inname = some name ∧ openName env L ['r', 'o'] name ≠ SYSERR) ∨
    c.inname = none ∧ ∃ name, c.outname = some name ∧ openName env L ['w'] name ≠ SYSERR

/-!
## The process
-/

/-- A process is created with its arguments, or none is created. -/
theorem spawn_cases {p : ParsedLine} (hfree : t.xinu.mem.FreeList 0 t.xinu.mem.freeList) :
    (t.spawn env p.lex p.command e).2.opened = t.opened ∧
      ((t.spawn env p.lex p.command e).1 = SYSERR →
        (t.spawn env p.lex p.command e).2.created = t.created) := by
  by_cases hchild : (t.xinu.create SHELL_CMDSTK SHELL_CMDPRIO).retval t.xinu.currpid = SYSERR
  · unfold spawn
    dsimp only
    rw [if_pos hchild]
    exact ⟨rfl, fun _ => rfl⟩
  · rcases create_stack hfree hchild with ⟨pid, entry, hpid, hentry, hlen, hlow, hhigh⟩
    let s : Placed p := {
      mem := t.mem
      saddr := entry.prstkbase
      procaddr := e.cfunc
      initret := env.initret
      dummy := env.tmparg
      low := hlow
      high := hhigh }
    have haddargs : s.addargs.1 = OK := s.addargs_ok
    have hcall : ((Child.create t.mem entry.prstkbase entry.prstklen e.cfunc env.initret
        [UInt32.ofNat p.command.ntok, env.tmparg]).addargs p.command.ntok p.lex.start
          p.command.tlen p.lex.tokbuf env.tmparg).1 = OK := by
      rw [hlen]
      exact haddargs
    unfold spawn
    dsimp only
    rw [if_neg hchild]
    refine ⟨rfl, fun herr => ?_⟩
    dsimp only at herr
    rw [hpid, hentry, hcall, if_neg (by decide)] at herr
    exact absurd (hpid.trans herr) hchild

/-!
## The files
-/

theorem openFile_ok {name mode : List Char} (h : env.opens name mode ≠ SYSERR) :
    t.openFile env name mode =
      (env.opens name mode, { t with opened := env.opens name mode :: t.opened }) :=
  congrArg (Prod.mk _) (if_neg h)

theorem openFile_syserr {name mode : List Char} (h : env.opens name mode = SYSERR) :
    t.openFile env name mode = (SYSERR, t) :=
  Prod.ext h (if_pos h)

theorem redirectAndSpawn_input_syserr {name : Nat} (hname : c.inname = some name)
    (hopen : openName env L ['r', 'o'] name = SYSERR) :
    t.redirectAndSpawn env dev L c e = (.inerr, t) := by
  unfold redirectAndSpawn
  rw [hname]
  dsimp only
  rw [openFile_syserr hopen]
  exact if_pos ⟨Option.some_ne_none name, rfl⟩

theorem redirectAndSpawn_input_ok {name : Nat} (hname : c.inname = some name)
    (hopen : openName env L ['r', 'o'] name ≠ SYSERR) :
    t.redirectAndSpawn env dev L c e =
      outputAndSpawn { t with opened := openName env L ['r', 'o'] name :: t.opened } env dev
        (openName env L ['r', 'o'] name) L c e := by
  unfold redirectAndSpawn
  rw [hname]
  dsimp only
  rw [openFile_ok hopen]
  exact if_neg fun h => hopen h.2

theorem redirectAndSpawn_no_input (hname : c.inname = none) :
    t.redirectAndSpawn env dev L c e = outputAndSpawn t env dev dev L c e := by
  unfold redirectAndSpawn
  rw [hname]
  exact if_neg fun h => h.1 rfl

/-- A device that is open for the input stays open. -/
theorem outputAndSpawn_opened {p : ParsedLine} (hfree : t.xinu.mem.FreeList 0 t.xinu.mem.freeList)
    (hopened : t.opened ≠ []) (stdinput : Int) :
    (t.outputAndSpawn env dev stdinput p.lex p.command e).2.opened ≠ [] := by
  have hspawn : ∀ s : LineState, s.opened ≠ [] → s.xinu = t.xinu →
      (s.spawn env p.lex p.command e).2.opened ≠ [] := fun s hs hxinu => by
    rw [(spawn_cases (hxinu ▸ hfree)).1]
    exact hs
  unfold outputAndSpawn
  cases hname : p.command.outname with
  | none =>
      dsimp only
      rw [if_neg fun h => h.1 rfl]
      split
      · exact hspawn t hopened rfl
      · exact hspawn t hopened rfl
  | some name =>
      by_cases hopen : openName env p.lex ['w'] name = SYSERR
      · dsimp only
        rw [openFile_syserr hopen, if_pos ⟨Option.some_ne_none name, rfl⟩]
        exact hopened
      · dsimp only
        rw [openFile_ok hopen, if_neg fun h => hopen h.2]
        split
        · exact hspawn _ (List.cons_ne_nil _ _) rfl
        · exact hspawn _ (List.cons_ne_nil _ _) rfl

/-- Without an input file, what is left depends on the output file. -/
theorem outputAndSpawn_clean_iff {p : ParsedLine}
    (hfree : t.xinu.mem.FreeList 0 t.xinu.mem.freeList) (hopened : t.opened = [])
    (hcreated : t.created = []) {stdinput : Int}
    (herr : (t.outputAndSpawn env dev stdinput p.lex p.command e).1.IsError) :
    (t.outputAndSpawn env dev stdinput p.lex p.command e).2.Clean ↔
      ¬∃ name, p.command.outname = some name ∧ openName env p.lex ['w'] name ≠ SYSERR := by
  unfold outputAndSpawn at herr ⊢
  cases hname : p.command.outname with
  | none =>
      have hspawn : (t.spawn env p.lex p.command e).2.opened = t.opened ∧
          ((t.spawn env p.lex p.command e).1 = SYSERR →
            (t.spawn env p.lex p.command e).2.created = t.created) := spawn_cases hfree
      rw [hname] at herr
      dsimp only at herr ⊢
      rw [if_neg fun h => h.1 rfl] at herr ⊢
      by_cases hchild : (t.spawn env p.lex p.command e).1 = SYSERR
      · rw [if_pos hchild]
        refine iff_of_true ⟨hspawn.1.trans hopened, fun pid hpid => ?_⟩ ?_
        · rw [hspawn.2 hchild, hcreated] at hpid
          cases hpid
        · rintro ⟨name, hsome, _⟩
          cases hsome
      · rw [if_neg hchild] at herr
        exact absurd herr id
  | some name =>
      by_cases hopen : openName env p.lex ['w'] name = SYSERR
      · dsimp only
        rw [openFile_syserr hopen, if_pos ⟨Option.some_ne_none name, rfl⟩]
        refine iff_of_true ⟨hopened, fun pid hpid => ?_⟩ ?_
        · rw [hcreated] at hpid
          cases hpid
        · rintro ⟨other, hsome, hok⟩
          cases hsome
          exact hok hopen
      · dsimp only
        rw [openFile_ok hopen, if_neg fun h => hopen h.2]
        refine iff_of_false (fun hclean => ?_) (not_not_intro ⟨name, rfl, hopen⟩)
        have hkept := @spawn_cases { t with opened := openName env p.lex ['w'] name :: t.opened } env
          e p hfree
        have hnil := hclean.1
        split at hnil
        · exact List.cons_ne_nil _ _ (hkept.1.symm.trans hnil)
        · exact List.cons_ne_nil _ _ (hkept.1.symm.trans hnil)

theorem redirectAndSpawn_clean_iff {p : ParsedLine}
    (hfree : t.xinu.mem.FreeList 0 t.xinu.mem.freeList) (hopened : t.opened = [])
    (hcreated : t.created = [])
    (herr : (t.redirectAndSpawn env dev p.lex p.command e).1.IsError) :
    (t.redirectAndSpawn env dev p.lex p.command e).2.Clean ↔
      ¬FirstOpens env p.lex p.command := by
  cases hname : p.command.inname with
  | none =>
      rw [redirectAndSpawn_no_input hname] at herr ⊢
      rw [outputAndSpawn_clean_iff hfree hopened hcreated herr]
      apply not_congr
      constructor
      · intro hout
        exact Or.inr ⟨hname, hout⟩
      · rintro (⟨name, hsome, _⟩ | ⟨_, hout⟩)
        · cases hname.symm.trans hsome
        · exact hout
  | some name =>
      by_cases hopen : openName env p.lex ['r', 'o'] name = SYSERR
      · rw [redirectAndSpawn_input_syserr hname hopen]
        refine iff_of_true ⟨hopened, fun pid hpid => ?_⟩ ?_
        · rw [hcreated] at hpid
          cases hpid
        · rintro (⟨other, hsome, hok⟩ | ⟨hnone, _⟩)
          · cases hname.symm.trans hsome
            exact hok hopen
          · cases hname.symm.trans hnone
      · rw [redirectAndSpawn_input_ok hname hopen]
        refine iff_of_false (fun hclean => ?_) (not_not_intro (Or.inl ⟨name, hname, hopen⟩))
        exact outputAndSpawn_opened (by exact hfree) (List.cons_ne_nil _ _) _ hclean.1

/-- The command is that of a program for which the shell opens a file. -/
def Opens (env : ShellEnv) (L : Lex) (c : Command) : Prop :=
  ∃ e, (env.cmdtab.find? fun e => sameCommand e.cname L.tokbuf) = some e ∧ e.cbuiltin = false ∧
    FirstOpens env L c

theorem execute_clean_iff {p : ParsedLine} (hfree : t.xinu.mem.FreeList 0 t.xinu.mem.freeList)
    (hopened : t.opened = []) (hcreated : t.created = [])
    (herr : (t.execute env dev p.lex p.command).1.IsError) :
    (t.execute env dev p.lex p.command).2.Clean ↔ ¬Opens env p.lex p.command := by
  have hstart : t.Clean := ⟨hopened, fun pid hpid => by rw [hcreated] at hpid; cases hpid⟩
  unfold execute at herr ⊢
  cases hfind : env.cmdtab.find? fun e => sameCommand e.cname p.lex.tokbuf with
  | none =>
      refine iff_of_true hstart ?_
      rintro ⟨e, hsome, _⟩
      cases hfind.symm.trans hsome
  | some e =>
      rw [hfind] at herr
      dsimp only at herr ⊢
      cases hbuiltin : e.cbuiltin with
      | true =>
          have hno : ¬Opens env p.lex p.command := by
            rintro ⟨e', hsome, hprogram, _⟩
            cases hfind.symm.trans hsome
            exact Bool.noConfusion (hbuiltin.symm.trans hprogram)
          rw [if_pos rfl]
          split
          · exact iff_of_true hstart hno
          · exact iff_of_true hstart hno
      | false =>
          rw [if_neg (ne_true_of_eq_false hbuiltin)] at herr
          rw [if_neg Bool.false_ne_true, redirectAndSpawn_clean_iff hfree hopened hcreated herr]
          apply not_congr
          constructor
          · intro hfirst
            exact ⟨e, hfind, hbuiltin, hfirst⟩
          · rintro ⟨e', hsome, _, hfirst⟩
            exact hfirst

end LineState

/-!
## The line
-/

/-- The line is that of a command for which the shell opens a file. -/
def OpensFile (env : ShellEnv) (line : List Char) : Prop :=
  ∃ L c, lexan line = some L ∧ L.parse = .lookup c ∧ LineState.Opens env L c

/-- After an error nothing is left of the line if and only if no file was opened for it. -/
theorem failed_clean_iff (env : ShellEnv) (dev : Int) (line : CommandLine) {xinu : Xinu}
    (mem : Memory) (hfree : xinu.mem.FreeList 0 xinu.mem.freeList)
    (herr : (shellLine env dev xinu mem line.chars).1.IsError) :
    (shellLine env dev xinu mem line.chars).2.Clean ↔ ¬OpensFile env line.chars := by
  have hstart : LineState.Clean { xinu, mem, opened := [], created := [] } :=
    ⟨rfl, fun pid hpid => absurd hpid List.not_mem_nil⟩
  unfold shellLine at herr ⊢
  dsimp only at herr ⊢
  cases hlex : lexan line.chars with
  | none =>
      refine iff_of_true hstart ?_
      rintro ⟨L, c, hsome, _⟩
      cases hlex.symm.trans hsome
  | some L =>
      rw [hlex] at herr
      dsimp only at herr ⊢
      have hparsed : ∀ c, L.parse = .lookup c →
          (OpensFile env line.chars ↔ LineState.Opens env L c) := fun c hc => by
        constructor
        · rintro ⟨L', c', hsome, hlooked, hopens⟩
          cases hlex.symm.trans hsome
          cases hc.symm.trans hlooked
          exact hopens
        · intro hopens
          exact ⟨L, c, hlex, hc, hopens⟩
      have hunparsed : (∀ c, L.parse ≠ .lookup c) → ¬OpensFile env line.chars := by
        rintro hno ⟨L', c', hsome, hlooked, _⟩
        cases hlex.symm.trans hsome
        exact hno c' hlooked
      cases hparse : L.parse with
      | empty => exact iff_of_true hstart (hunparsed fun c hc => by cases hparse.symm.trans hc)
      | syntaxError => exact iff_of_true hstart (hunparsed fun c hc => by cases hparse.symm.trans hc)
      | lookup c =>
          let p : ParsedLine := {
            line := line
            lex := L
            command := c
            lexed := hlex
            looked := hparse }
          rw [hparse] at herr
          rw [hparsed c hparse]
          exact LineState.execute_clean_iff (p := p) hfree rfl rfl herr

/-- A system in which there is the program {lit}`c`, and the file {lit}`a` can be opened. -/
def oneFile : ShellEnv where
  cmdtab := [{ cname := ['c'], cbuiltin := false, cfunc := 0x8000 }]
  opens := fun name _ => if name = ['a'] then 1 else SYSERR
  initret := 0x8100
  tmparg := 0x1f000

theorem failed_clean_no_program :
    (shellLine oneFile 0 sampleHost (fun _ => 0) lsLine.line.chars).2.Clean ↔
      ¬OpensFile oneFile lsLine.line.chars := by
  apply failed_clean_iff oneFile 0 lsLine.line (fun _ => 0) sampleHost_free
  unfold shellLine
  rw [lsLine.lexed]
  decide

/-- The line {lit}`c <a >b`, for which only the first file can be opened. -/
def twoFiles : CommandLine where
  chars := ['c', ' ', '<', 'a', ' ', '>', 'b']
  terminator := SH_NEWLINE
  nonend := forall_of_all (by decide)
  short := by decide
  isEnd := isEnd_newline

def twoFilesLex : Lex where
  tokbuf := ['c', NULLCH, '<', NULLCH, 'a', NULLCH, '>', NULLCH, 'b', NULLCH]
  tok := [0, 2, 4, 6, 8]
  toktyp := [.other, .less, .other, .greater, .other]

theorem twoFiles_lexed : lexan twoFiles.chars = some twoFilesLex := by
  let L₁ := Lex.empty.token .other ['c']
  let L₂ := (L₁.token .less ['<']).token .other ['a']
  let L₃ := (L₂.token .greater ['>']).token .other ['b']
  calc lexan twoFiles.chars
    _ = lexLoop L₁ [' ', '<', 'a', ' ', '>', 'b'] :=
        (lexLoop_words (w := ['c']) (List.cons_ne_nil _ _) (forall_of_all (by decide))
          (by decide)).trans ((if_neg (by decide)).trans (if_neg (by decide)))
    _ = lexLoop L₁ ['<', 'a', ' ', '>', 'b'] :=
        (lexLoop_blank (Or.inl rfl) _).trans (if_neg (by decide))
    _ = lexLoop (L₁.token .less ['<']) ['a', ' ', '>', 'b'] :=
        (lexLoop_operator rfl _).trans (if_neg (by decide))
    _ = lexLoop L₂ [' ', '>', 'b'] :=
        (lexLoop_words (w := ['a']) (List.cons_ne_nil _ _) (forall_of_all (by decide))
          (by decide)).trans ((if_neg (by decide)).trans (if_neg (by decide)))
    _ = lexLoop L₂ ['>', 'b'] := (lexLoop_blank (Or.inl rfl) _).trans (if_neg (by decide))
    _ = lexLoop (L₂.token .greater ['>']) ['b'] :=
        (lexLoop_operator rfl _).trans (if_neg (by decide))
    _ = lexLoop L₃ [] :=
        (lexLoop_words (w := ['b']) (p := []) (List.cons_ne_nil _ _)
          (forall_of_all (by decide)) (by decide)).trans
            ((if_neg (by decide)).trans (if_neg (by decide)))
    _ = some twoFilesLex := lexLoop_end (Or.inl rfl)

theorem failed_leaves_open :
    ¬∀ (env : ShellEnv) (dev : Int) (line : CommandLine) (xinu : Xinu) (mem : Memory),
      xinu.mem.FreeList 0 xinu.mem.freeList → (shellLine env dev xinu mem line.chars).1.IsError →
        (shellLine env dev xinu mem line.chars).2.Clean := by
  intro hall
  have hanswer : shellLine oneFile 0 sampleHost (fun _ => 0) twoFiles.chars =
      (.outerr, { xinu := sampleHost, mem := fun _ => 0, opened := [1], created := [] }) := by
    unfold shellLine
    rw [twoFiles_lexed]
    rfl
  have hclean := hall oneFile 0 twoFiles sampleHost (fun _ => 0) sampleHost_free
  rw [hanswer] at hclean
  exact List.cons_ne_nil _ _ (hclean trivial).1

end BbbXinu
