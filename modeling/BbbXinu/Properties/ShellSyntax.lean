import BbbXinu.Properties.TokenBuffers
import BbbXinu.Shell.Command

/-!
# The syntax of a command

A command is one or more words, at most one input and one output redirection in either
order, and an optional ampersand.  The shell takes these parts off from the end; each time
{lit}`ntok` and {lit}`tlen` are again those of the tokens in front.
-/

namespace BbbXinu

/-- A string without null characters. -/
structure Text where
  chars : List Char
  nonnull : NULLCH ∉ chars

/-- What the analyzer finds. -/
inductive CmdToken where
  | amper | less | greater
  | word (text : Text)

def CmdToken.token : CmdToken → ShToken
  | .amper => { typ := .amper, text := [SH_AMPER] }
  | .less => { typ := .less, text := [SH_LESS] }
  | .greater => { typ := .greater, text := [SH_GREATER] }
  | .word t => { typ := .other, text := t.chars }

/-- The redirections of a command, in the order in which they are given. -/
inductive Redirections where
  | none
  | input (file : Text)
  | output (file : Text)
  | inputOutput (infile outfile : Text)
  | outputInput (outfile infile : Text)

namespace Redirections

def tokens : Redirections → List CmdToken
  | none => []
  | input f => [.less, .word f]
  | output f => [.greater, .word f]
  | inputOutput f g => [.less, .word f, .greater, .word g]
  | outputInput g f => [.greater, .word g, .less, .word f]

def infile : Redirections → Option Text
  | none | output _ => Option.none
  | input f | inputOutput f _ | outputInput _ f => some f

def outfile : Redirections → Option Text
  | none | input _ => Option.none
  | output g | inputOutput _ g | outputInput g _ => some g

end Redirections

/-- A command with its redirections. -/
structure ShellLine where
  words : List Text
  nonempty : words ≠ []
  redirections : Redirections
  background : Bool

def ShellLine.wordTokens (g : ShellLine) : List CmdToken := g.words.map CmdToken.word

/-- The tokens of a command. -/
def ShellLine.tokens (g : ShellLine) : List CmdToken :=
  g.wordTokens ++ g.redirections.tokens ++ if g.background then [CmdToken.amper] else []

/-- The buffer and the arrays with some tokens, as the analyzer leaves them. -/
def layout (toks : List CmdToken) : Lex := Lex.empty.add (toks.map CmdToken.token)

/-- The number of bytes of some tokens in the buffer. -/
def bytesOf (toks : List CmdToken) : List Char := tokenBytes (toks.map CmdToken.token)

/-- The variables of the shell describe a command. -/
structure Describes (toks : List CmdToken) (g : ShellLine) (c : Command) : Prop where
  backgnd : c.backgnd = g.background
  inname : c.inname.map (layout toks).string = g.redirections.infile.map Text.chars
  outname : c.outname.map (layout toks).string = g.redirections.outfile.map Text.chars
  ntok : c.ntok = g.words.length
  tlen : c.tlen = (bytesOf g.wordTokens).length
  tokbuf : (layout toks).tokbuf.take c.tlen = bytesOf g.wordTokens

/-- The number and the length are those of the first tokens. -/
structure Reads (pre : List CmdToken) (c : Command) : Prop where
  ntok : c.ntok = pre.length
  tlen : c.tlen = (bytesOf pre).length

/-- Another redirection in front of others. -/
def Redirections.addInput (f : Text) : Redirections → Option Redirections
  | none => some (input f)
  | output g => some (inputOutput f g)
  | _ => Option.none

def Redirections.addOutput (g : Text) : Redirections → Option Redirections
  | none => some (output g)
  | input f => some (outputInput g f)
  | _ => Option.none

/-- The shell has taken an ampersand and some redirections off. -/
structure Taken (toks pre : List CmdToken) (r : Redirections) (bg : Bool) (c : Command) : Prop
    extends Reads pre c where
  split : toks = pre ++ (r.tokens ++ if bg then [CmdToken.amper] else [])
  backgnd : c.backgnd = bg
  inname : c.inname.map (layout toks).string = r.infile.map Text.chars
  outname : c.outname.map (layout toks).string = r.outfile.map Text.chars

/-- The last but one of at least three tokens is the operator of a redirection. -/
inductive Redirected : List CmdToken → Prop where
  | intro {init : List CmdToken} {op last : CmdToken} (hinit : init ≠ [])
      (hop : op = .less ∨ op = .greater) : Redirected (init ++ [op, last])

section

variable {toks pre post init : List CmdToken} {a op last : CmdToken} {c c' : Command}
  {r r' : Redirections} {bg : Bool} {f g : Text}

/-!
## The layout
-/

theorem CmdToken.nonnull (a : CmdToken) : NULLCH ∉ a.token.text := by
  cases a with
  | amper => decide
  | less => decide
  | greater => decide
  | word t => exact t.nonnull

theorem bytesOf_append (pre post : List CmdToken) :
    bytesOf (pre ++ post) = bytesOf pre ++ bytesOf post := by
  unfold bytesOf
  rw [List.map_append, tokenBytes_append]

theorem bytesOf_singleton (a : CmdToken) : bytesOf [a] = a.token.bytes := List.append_nil _

theorem layout_tokbuf (toks : List CmdToken) : (layout toks).tokbuf = bytesOf toks :=
  (Lex.add_layout _).1

theorem layout_tlen (toks : List CmdToken) : (layout toks).tlen = (bytesOf toks).length :=
  congrArg List.length (layout_tokbuf toks)

theorem layout_ntok (toks : List CmdToken) : (layout toks).ntok = toks.length := by
  unfold layout
  rw [Lex.ntok_add, List.length_map]
  exact Nat.zero_add _

/-- The type of a token behind some others. -/
theorem isType_iff (h : toks = pre ++ a :: post) (typ : ShTok) :
    (layout toks).isType pre.length typ ↔ a.token.typ = typ := by
  unfold Lex.isType layout
  rw [(Lex.add_layout _).2.2, List.map_map, h, List.map_append, List.map_cons,
    List.getElem?_append_right (by rw [List.length_map]), List.length_map, Nat.sub_self,
    List.getElem?_cons_zero, Option.some_inj]
  rfl

/-- The index of a token behind some others. -/
theorem start_eq (h : toks = pre ++ a :: post) :
    (layout toks).start pre.length = (bytesOf pre).length := by
  have hlt : pre.length < (toks.map CmdToken.token).length := by
    rw [h, List.length_map, List.length_append, List.length_cons]
    omega
  unfold Lex.start layout
  rw [(Lex.add_layout _).2.1, List.getD_eq_getElem?_getD, Scatter.front_get rfl hlt, Option.getD_some]
  unfold tokenStart bytesOf
  rw [h, List.map_append, List.take_left' (List.length_map _)]

theorem string_eq (h : toks = pre ++ a :: post) :
    (layout toks).string (bytesOf pre).length = a.token.text := by
  unfold Lex.string
  rw [layout_tokbuf, h, bytesOf_append, List.drop_left]
  change cstring (a.token.text ++ [NULLCH] ++ bytesOf post) = _
  rw [List.append_assoc]
  exact cstring_append_null a.nonnull

/-- The analyzer finds such tokens. -/
theorem Scans.cmdTokens {l : List Char} {ts : List ShToken} {e : Ending} (h : Scans l ts e)
    (hl : ∀ c ∈ l, ¬IsEnd c) : ∃ toks : List CmdToken, toks.map CmdToken.token = ts := by
  have hnull : ∀ w : List Char, (∀ c ∈ w, c ∈ l) → NULLCH ∉ w :=
    fun w hw hmem => hl NULLCH (hw NULLCH hmem) (Or.inl rfl)
  induction h with
  | nil => exact ⟨[], rfl⟩
  | @blank c l ts e hc h ih =>
      exact ih (fun d hd => hl d (List.mem_cons_of_mem c hd))
        fun w hw => hnull w fun d hd => List.mem_cons_of_mem c (hw d hd)
  | @operator c typ l ts e hc h ih =>
      rcases ih (fun d hd => hl d (List.mem_cons_of_mem c hd))
        (fun w hw => hnull w fun d hd => List.mem_cons_of_mem c (hw d hd)) with ⟨toks, rfl⟩
      rcases operator_cases hc with ⟨rfl, rfl⟩ | ⟨rfl, rfl⟩ | ⟨rfl, rfl⟩
      · exact ⟨.amper :: toks, rfl⟩
      · exact ⟨.less :: toks, rfl⟩
      · exact ⟨.greater :: toks, rfl⟩
  | @quoted q body l ts e hq hbody h ih =>
      have htail : ∀ d ∈ l, d ∈ q :: (body ++ q :: l) := fun d hd =>
        List.mem_cons_of_mem q (List.mem_append_right body (List.mem_cons_of_mem q hd))
      have hmem : ∀ d ∈ body, d ∈ q :: (body ++ q :: l) := fun d hd =>
        List.mem_cons_of_mem q (List.mem_append_left _ hd)
      rcases ih (fun d hd => hl d (htail d hd))
        (fun w hw => hnull w fun d hd => htail d (hw d hd)) with ⟨toks, rfl⟩
      exact ⟨.word ⟨body, hnull body hmem⟩ :: toks, rfl⟩
  | unmatched hq hbody => exact ⟨[], rfl⟩
  | @word w l ts e hne hw hstop h ih =>
      have htail : ∀ d ∈ l, d ∈ w ++ l := fun d hd => List.mem_append_right w hd
      rcases ih (fun d hd => hl d (htail d hd))
        (fun u hu => hnull u fun d hd => htail d (hu d hd)) with ⟨toks, rfl⟩
      exact ⟨.word ⟨w, hnull w fun d hd => List.mem_append_left l hd⟩ :: toks, rfl⟩
  | appended hne hw hc => exact ⟨[], rfl⟩

theorem lexan_is_layout {line : List Char} {L : Lex} (h : lexan line = some L) :
    ∃ toks, L = layout toks := by
  rcases scans_of_lexan h with ⟨ts, e, hscans, hL⟩
  rcases hscans.cmdTokens (lineText_not_end line) with ⟨toks, rfl⟩
  exact ⟨toks, hL⟩

/-!
## Taking parts off
-/

theorem background_amper (h : toks = pre ++ [.amper]) :
    Taken toks pre .none true (layout toks).background := by
  have hlen : (layout toks).ntok - 1 = pre.length := by
    rw [layout_ntok, h, List.length_append, List.length_singleton, Nat.add_sub_cancel]
  have htyp : (layout toks).isType ((layout toks).ntok - 1) .amper := by
    rw [hlen]
    exact (isType_iff h .amper).mpr rfl
  have htlen : (layout toks).tlen - 2 = (bytesOf pre).length := by
    rw [layout_tlen, h, bytesOf_append, bytesOf_singleton, List.length_append]
    rfl
  unfold Lex.background
  rw [if_pos htyp]
  exact { ntok := hlen, tlen := htlen, split := h, backgnd := rfl, inname := rfl, outname := rfl }

theorem background_none (h : toks = pre ++ [a]) (ha : a ≠ .amper) :
    Taken toks toks .none false (layout toks).background := by
  have hlen : (layout toks).ntok - 1 = pre.length := by
    rw [layout_ntok, h, List.length_append, List.length_singleton, Nat.add_sub_cancel]
  have htyp : ¬(layout toks).isType ((layout toks).ntok - 1) .amper := by
    rw [hlen, isType_iff h .amper]
    cases a with
    | amper => exact absurd rfl ha
    | less => exact ShTok.noConfusion
    | greater => exact ShTok.noConfusion
    | word t => exact ShTok.noConfusion
  unfold Lex.background
  rw [if_neg htyp]
  exact {
    ntok := layout_ntok toks
    tlen := layout_tlen toks
    split := (List.append_nil toks).symm
    backgnd := rfl
    inname := rfl
    outname := rfl }

theorem eq_less_iff : op.token.typ = .less ↔ op = .less := by
  cases op <;> simp [CmdToken.token]

theorem eq_greater_iff : op.token.typ = .greater ↔ op = .greater := by
  cases op <;> simp [CmdToken.token]

theorem exists_last_two (h : 3 ≤ pre.length) :
    ∃ init op last, pre = init ++ [op, last] ∧ init ≠ [] := by
  rcases List.eq_nil_or_concat pre with rfl | ⟨front, last, rfl⟩
  · rw [List.length_nil] at h
    omega
  · rcases List.eq_nil_or_concat front with rfl | ⟨init, op, rfl⟩
    · rw [List.concat_nil, List.length_singleton] at h
      omega
    · refine ⟨init, op, last, ?_, ?_⟩
      · rw [List.concat_eq_append, List.concat_eq_append, List.append_assoc]
        rfl
      · rintro rfl
        have hlen : 3 ≤ 2 := h
        omega

/-- Where the last two tokens are. -/
theorem Reads.places (hr : Reads pre c) (hpre : pre = init ++ [op, last]) :
    c.ntok - 2 = init.length ∧ c.ntok - 1 = (init ++ [op]).length := by
  have hlen : c.ntok = init.length + 2 := by
    rw [hr.ntok, hpre, List.length_append]
    rfl
  rw [hlen, List.length_append, List.length_singleton]
  omega

theorem redirected_iff (h : toks = pre ++ post) (hr : Reads pre c) :
    (layout toks).redirected c ↔ Redirected pre := by
  have htyps : ∀ {init op last}, pre = init ++ [op, last] →
      (((layout toks).isType (c.ntok - 2) .less ∨ (layout toks).isType (c.ntok - 2) .greater) ↔
        (op = .less ∨ op = .greater)) := by
    intro init op last hpre
    have hsplit : toks = init ++ op :: (last :: post) := by
      rw [h, hpre, List.append_assoc]
      rfl
    rw [(hr.places hpre).1, isType_iff hsplit, isType_iff hsplit, eq_less_iff, eq_greater_iff]
  constructor
  · rintro ⟨hlen, hop⟩
    rcases exists_last_two (hr.ntok ▸ hlen) with ⟨init, op, last, hpre, hinit⟩
    exact hpre ▸ .intro hinit ((htyps hpre).mp hop)
  · intro hred
    cases hred with
    | @intro init op last hinit hop =>
        refine ⟨?_, (htyps rfl).mpr hop⟩
        have hpos := List.length_pos_of_ne_nil hinit
        rw [hr.ntok, List.length_append]
        exact Nat.add_le_add_right hpos 2

/-- The part of the buffer and the arrays in front of a redirection. -/
theorem Taken.shorten (h : Taken toks pre r bg c) (hpre : pre = init ++ [op, last]) :
    Reads init ((layout toks).shorten c) where
  ntok := (h.toReads.places hpre).1
  tlen := by
    have hsplit : toks = init ++ op :: (last :: (r.tokens ++ if bg then [.amper] else [])) := by
      rw [h.split, hpre, List.append_assoc]
      rfl
    change (layout toks).start (c.ntok - 2) = _
    rw [(h.toReads.places hpre).1, start_eq hsplit]

/-- What the second check does at a redirection, and the name that it finds. -/
theorem Taken.again_op (h : Taken toks pre r bg c) (hpre : pre = init ++ [op, last])
    (hinit : init ≠ []) (hop : op = .less ∨ op = .greater) :
    (layout toks).redirectAgain c =
      (if ¬last.token.typ = .other then none
      else if op.token.typ = .less then
        if c.inname ≠ none then none
        else some { (layout toks).shorten c with inname := some (bytesOf (init ++ [op])).length }
      else
        if c.outname ≠ none then none
        else some { (layout toks).shorten c with outname := some (bytesOf (init ++ [op])).length }) ∧
      (layout toks).string (bytesOf (init ++ [op])).length = last.token.text := by
  have hsplit : toks = init ++ op :: (last :: (r.tokens ++ if bg then [.amper] else [])) := by
    rw [h.split, hpre, List.append_assoc]
    rfl
  have hlast : toks = (init ++ [op]) ++ last :: (r.tokens ++ if bg then [.amper] else []) := by
    rw [hsplit, List.append_assoc]
    rfl
  have hred : (layout toks).redirected c :=
    (redirected_iff h.split h.toReads).mpr (hpre ▸ .intro hinit hop)
  rcases h.toReads.places hpre with ⟨hop', hlast'⟩
  refine ⟨?_, string_eq hlast⟩
  unfold Lex.redirectAgain
  simp only [if_pos hred, hop', hlast', isType_iff hsplit, isType_iff hlast, start_eq hlast]

theorem Taken.again_plain (h : Taken toks pre r bg c) (hno : ¬Redirected pre) :
    (layout toks).redirectAgain c = some c :=
  if_neg fun hred => hno ((redirected_iff h.split h.toReads).mp hred)

theorem inname_none_iff (h : Taken toks pre r bg c) : c.inname = none ↔ r.infile = none := by
  rw [← Option.map_eq_none_iff (f := (layout toks).string), h.inname, Option.map_eq_none_iff]

theorem outname_none_iff (h : Taken toks pre r bg c) : c.outname = none ↔ r.outfile = none := by
  rw [← Option.map_eq_none_iff (f := (layout toks).string), h.outname, Option.map_eq_none_iff]

theorem Taken.again_input (h : Taken toks pre r bg c) (hpre : pre = init ++ [.less, .word f])
    (hinit : init ≠ []) :
    match r.addInput f with
    | some r' => ∃ c', (layout toks).redirectAgain c = some c' ∧ Taken toks init r' bg c'
    | none => (layout toks).redirectAgain c = none := by
  rcases h.again_op hpre hinit (Or.inl rfl) with ⟨hagain, hstring⟩
  have htyp : ¬¬(CmdToken.word f).token.typ = .other := not_not.mpr rfl
  have hless : CmdToken.less.token.typ = .less := rfl
  have hreads := h.shorten hpre
  rw [if_neg htyp, if_pos hless] at hagain
  have hadded : r.infile = none → ∀ r', r'.tokens = [.less, .word f] ++ r.tokens →
      r'.infile = some f → r'.outfile = r.outfile →
      ∃ c', (layout toks).redirectAgain c = some c' ∧ Taken toks init r' bg c' := by
    intro hnone r' htokens hinfile houtfile
    rw [if_neg (not_not.mpr ((inname_none_iff h).mpr hnone))] at hagain
    refine ⟨_, hagain, ?_⟩
    exact {
      ntok := hreads.ntok
      tlen := hreads.tlen
      split := by rw [h.split, hpre, htokens, List.append_assoc, List.append_assoc]
      backgnd := h.backgnd
      inname := by
        rw [hinfile, Option.map_some, Option.map_some, hstring]
        rfl
      outname := by
        rw [houtfile]
        exact h.outname }
  have hrefused : r.infile ≠ none → (layout toks).redirectAgain c = none := by
    intro hsome
    rw [if_pos fun hnone => hsome ((inname_none_iff h).mp hnone)] at hagain
    exact hagain
  cases r with
  | none => exact hadded rfl _ rfl rfl rfl
  | input f' => exact hrefused nofun
  | output g => exact hadded rfl _ rfl rfl rfl
  | inputOutput f' g => exact hrefused nofun
  | outputInput g f' => exact hrefused nofun

theorem Taken.again_output (h : Taken toks pre r bg c) (hpre : pre = init ++ [.greater, .word g])
    (hinit : init ≠ []) :
    match r.addOutput g with
    | some r' => ∃ c', (layout toks).redirectAgain c = some c' ∧ Taken toks init r' bg c'
    | none => (layout toks).redirectAgain c = none := by
  rcases h.again_op hpre hinit (Or.inr rfl) with ⟨hagain, hstring⟩
  have htyp : ¬¬(CmdToken.word g).token.typ = .other := not_not.mpr rfl
  have hless : ¬CmdToken.greater.token.typ = .less := nofun
  have hreads := h.shorten hpre
  rw [if_neg htyp, if_neg hless] at hagain
  have hadded : r.outfile = none → ∀ r', r'.tokens = [.greater, .word g] ++ r.tokens →
      r'.outfile = some g → r'.infile = r.infile →
      ∃ c', (layout toks).redirectAgain c = some c' ∧ Taken toks init r' bg c' := by
    intro hnone r' htokens houtfile hinfile
    rw [if_neg (not_not.mpr ((outname_none_iff h).mpr hnone))] at hagain
    refine ⟨_, hagain, ?_⟩
    exact {
      ntok := hreads.ntok
      tlen := hreads.tlen
      split := by rw [h.split, hpre, htokens, List.append_assoc, List.append_assoc]
      backgnd := h.backgnd
      inname := by
        rw [hinfile]
        exact h.inname
      outname := by
        rw [houtfile, Option.map_some, Option.map_some, hstring]
        rfl }
  have hrefused : r.outfile ≠ none → (layout toks).redirectAgain c = none := by
    intro hsome
    rw [if_pos fun hnone => hsome ((outname_none_iff h).mp hnone)] at hagain
    exact hagain
  cases r with
  | none => exact hadded rfl _ rfl rfl rfl
  | input f => exact hadded rfl _ rfl rfl rfl
  | output g' => exact hrefused nofun
  | inputOutput f g' => exact hrefused nofun
  | outputInput g' f => exact hrefused nofun

/-- Whatever the second check takes off is a redirection. -/
theorem Taken.again (h : Taken toks pre r bg c) (hc : (layout toks).redirectAgain c = some c') :
    ∃ pre' r', Taken toks pre' r' bg c' := by
  by_cases hred : Redirected pre
  · generalize hpre : pre = l at hred
    cases hred with
    | @intro init op last hinit hop =>
        by_cases hword : last.token.typ = .other
        · cases last with
          | amper => cases hword
          | less => cases hword
          | greater => cases hword
          | word f =>
              rcases hop with rfl | rfl
              · have hinput := h.again_input hpre hinit
                cases hadd : r.addInput f with
                | none =>
                    rw [hadd] at hinput
                    rw [hinput] at hc
                    cases hc
                | some r' =>
                    rw [hadd] at hinput
                    rcases hinput with ⟨c'', hc'', htaken⟩
                    exact ⟨init, r', Option.some.inj (hc''.symm.trans hc) ▸ htaken⟩
              · have houtput := h.again_output hpre hinit
                cases hadd : r.addOutput f with
                | none =>
                    rw [hadd] at houtput
                    rw [houtput] at hc
                    cases hc
                | some r' =>
                    rw [hadd] at houtput
                    rcases houtput with ⟨c'', hc'', htaken⟩
                    exact ⟨init, r', Option.some.inj (hc''.symm.trans hc) ▸ htaken⟩
        · rw [(h.again_op hpre hinit hop).1, if_pos hword] at hc
          cases hc
  · rw [h.again_plain hred] at hc
    exact ⟨pre, r, Option.some.inj hc ▸ h⟩

/-- Without names the first check is the second one. -/
theorem redirect_eq (hin : c.inname = none) (hout : c.outname = none) (L : Lex) :
    L.redirect c = L.redirectAgain c := by
  unfold Lex.redirect Lex.redirectAgain
  rw [hin, hout, if_neg (not_not.mpr rfl), if_neg (not_not.mpr rfl)]

/-!
## What is left
-/

theorem words_of_types (h : ∀ a ∈ pre, a.token.typ = .other) :
    ∃ ws : List Text, pre = ws.map CmdToken.word := by
  induction pre with
  | nil => exact ⟨[], rfl⟩
  | cons a pre ih =>
      rcases ih fun b hb => h b (List.mem_cons_of_mem a hb) with ⟨ws, rfl⟩
      have ha := h a List.mem_cons_self
      cases a with
      | amper => cases ha
      | less => cases ha
      | greater => cases ha
      | word t => exact ⟨t :: ws, rfl⟩

theorem isType_get (h : toks = pre ++ post) {i : Nat} (hi : i < pre.length) (typ : ShTok) :
    (layout toks).isType i typ ↔ pre[i].token.typ = typ := by
  have hlen : (pre.take i).length = i := List.length_take_of_le hi.le
  have hsplit : toks = pre.take i ++ pre[i] :: (pre.drop (i + 1) ++ post) := by
    rw [← List.cons_append, ← List.drop_eq_getElem_cons hi, ← List.append_assoc,
      List.take_append_drop, h]
  have htyp := isType_iff hsplit typ
  rw [hlen] at htyp
  exact htyp

/-- The last check: there is a token, and all are words. -/
theorem verified_iff (h : toks = pre ++ post) (hr : Reads pre c) :
    ¬(c.ntok = 0 ∨ ∃ i < c.ntok, ¬(layout toks).isType i .other) ↔
      pre ≠ [] ∧ ∃ ws : List Text, pre = ws.map CmdToken.word := by
  rw [hr.ntok, not_or, List.length_eq_zero_iff]
  refine and_congr_right fun _ => ?_
  constructor
  · intro hall
    apply words_of_types
    intro a ha
    rcases List.mem_iff_getElem.mp ha with ⟨i, hi, rfl⟩
    by_contra hne
    exact hall ⟨i, hi, fun htyp => hne ((isType_get h hi .other).mp htyp)⟩
  · rintro ⟨ws, rfl⟩ ⟨i, hi, hne⟩
    apply hne
    rw [isType_get h hi .other, List.getElem_map]
    rfl

theorem word_not_redirected (ws : List Text) : ¬Redirected (ws.map CmdToken.word) := by
  intro hred
  generalize hl : ws.map CmdToken.word = l at hred
  cases hred with
  | @intro init op last hinit hop =>
      have hmem : op ∈ ws.map CmdToken.word := by
        rw [hl]
        exact List.mem_append_right init List.mem_cons_self
      rcases List.mem_map.mp hmem with ⟨w, _, rfl⟩
      rcases hop with hop | hop
      · cases hop
      · cases hop

/-!
## The parser
-/

theorem Taken.names_none (h : Taken toks pre .none bg c) : c.inname = none ∧ c.outname = none :=
  ⟨(inname_none_iff h).mpr rfl, (outname_none_iff h).mpr rfl⟩

/-- After the ampersand the parser is two checks for redirections and one for words. -/
theorem parse_eq (hne : toks ≠ []) (h : Taken toks pre .none bg (layout toks).background) :
    (layout toks).parse =
      match ((layout toks).redirectAgain (layout toks).background).bind
          (layout toks).redirectAgain with
      | none => .syntaxError
      | some c =>
          if c.ntok = 0 ∨ ∃ i < c.ntok, ¬(layout toks).isType i .other then .syntaxError
          else .lookup c := by
  have hntok : ¬(layout toks).ntok = 0 := by
    rw [layout_ntok]
    exact fun hzero => hne (List.length_eq_zero_iff.mp hzero)
  unfold Lex.parse
  rw [if_neg hntok, redirect_eq h.names_none.1 h.names_none.2]
  cases (layout toks).redirectAgain (layout toks).background with
  | none => rfl
  | some c => rfl

theorem exists_background (hne : toks ≠ []) :
    ∃ pre bg, Taken toks pre .none bg (layout toks).background := by
  rcases List.eq_nil_or_concat toks with rfl | ⟨pre, a, htoks⟩
  · exact absurd rfl hne
  · rw [List.concat_eq_append] at htoks
    by_cases ha : a = .amper
    · exact ⟨pre, true, background_amper (ha ▸ htoks)⟩
    · exact ⟨toks, false, background_none htoks ha⟩

/-- The variables describe the command when all that is left are its words. -/
theorem Taken.describes (h : Taken toks pre r bg c) (line : ShellLine)
    (hpre : pre = line.wordTokens) (hr : r = line.redirections) (hbg : bg = line.background) :
    Describes toks line c where
  backgnd := h.backgnd.trans hbg
  inname := hr ▸ h.inname
  outname := hr ▸ h.outname
  ntok := by
    rw [h.ntok, hpre]
    exact List.length_map _
  tlen := by rw [h.tlen, hpre]
  tokbuf := by
    rw [layout_tokbuf, h.tlen, h.split, bytesOf_append, List.take_left, hpre]

/-- What the shell looks up is a command. -/
theorem parse_sound (h : (layout toks).parse = .lookup c) :
    ∃ line : ShellLine, line.tokens = toks := by
  have hne : toks ≠ [] := by
    rintro rfl
    cases h
  rcases exists_background hne with ⟨pre, bg, hstart⟩
  rw [parse_eq hne hstart] at h
  cases hbind : ((layout toks).redirectAgain (layout toks).background).bind
      (layout toks).redirectAgain with
  | none =>
      rw [hbind] at h
      cases h
  | some c' =>
      rw [hbind] at h
      rcases Option.bind_eq_some_iff.mp hbind with ⟨c₁, hfirst, hsecond⟩
      rcases hstart.again hfirst with ⟨pre₁, r₁, htaken⟩
      rcases htaken.again hsecond with ⟨pre₂, r₂, htaken'⟩
      dsimp only at h
      split at h
      · cases h
      · rename_i hverified
        rcases (verified_iff htaken'.split htaken'.toReads).mp hverified with ⟨hpre, ws, hws⟩
        have hwords : ws ≠ [] := by
          rintro rfl
          exact hpre hws
        refine ⟨⟨ws, hwords, r₂, bg⟩, ?_⟩
        rw [htaken'.split, hws, ← List.append_assoc]
        rfl

/-- The checks take the redirections of a command off. -/
theorem Taken.redirections (line : ShellLine) (h : Taken toks
    (line.wordTokens ++ line.redirections.tokens) .none bg (layout toks).background) :
    ∃ c, ((layout toks).redirectAgain (layout toks).background).bind
        (layout toks).redirectAgain = some c ∧
      Taken toks line.wordTokens line.redirections bg c := by
  have hplain : ¬Redirected line.wordTokens := word_not_redirected line.words
  have hne : line.wordTokens ≠ [] := fun hnil => line.nonempty (List.map_eq_nil_iff.mp hnil)
  generalize hr : line.redirections = r at h
  cases r with
  | none =>
      rw [show Redirections.none.tokens = [] from rfl, List.append_nil] at h
      rw [h.again_plain hplain]
      exact ⟨_, h.again_plain hplain, h⟩
  | input f =>
      rcases h.again_input rfl hne with ⟨c, hc, htaken⟩
      rw [hc]
      exact ⟨c, htaken.again_plain hplain, htaken⟩
  | output g =>
      rcases h.again_output rfl hne with ⟨c, hc, htaken⟩
      rw [hc]
      exact ⟨c, htaken.again_plain hplain, htaken⟩
  | inputOutput f g =>
      have hinit : line.wordTokens ++ [.less, .word f] ≠ [] := List.append_ne_nil_of_left_ne_nil hne _
      have hsplit : line.wordTokens ++ (Redirections.inputOutput f g).tokens =
          line.wordTokens ++ [.less, .word f] ++ [.greater, .word g] := by
        rw [List.append_assoc]
        rfl
      rcases h.again_output hsplit hinit with ⟨c, hc, htaken⟩
      rcases htaken.again_input rfl hne with ⟨c', hc', htaken'⟩
      rw [hc]
      exact ⟨c', hc', htaken'⟩
  | outputInput g f =>
      have hinit : line.wordTokens ++ [.greater, .word g] ≠ [] :=
        List.append_ne_nil_of_left_ne_nil hne _
      have hsplit : line.wordTokens ++ (Redirections.outputInput g f).tokens =
          line.wordTokens ++ [.greater, .word g] ++ [.less, .word f] := by
        rw [List.append_assoc]
        rfl
      rcases h.again_input hsplit hinit with ⟨c, hc, htaken⟩
      rcases htaken.again_output rfl hne with ⟨c', hc', htaken'⟩
      rw [hc]
      exact ⟨c', hc', htaken'⟩

/-- Every command is looked up, with the variables that describe it. -/
theorem parse_complete (line : ShellLine) :
    ∃ c, (layout line.tokens).parse = .lookup c ∧ Describes line.tokens line c := by
  have hwords : line.wordTokens ≠ [] := fun hnil => line.nonempty (List.map_eq_nil_iff.mp hnil)
  have hne : line.tokens ≠ [] := by
    unfold ShellLine.tokens
    rw [List.append_assoc]
    exact List.append_ne_nil_of_left_ne_nil hwords _
  have hstart : Taken line.tokens (line.wordTokens ++ line.redirections.tokens) .none
      line.background (layout line.tokens).background := by
    cases hbg : line.background with
    | true =>
        apply background_amper
        unfold ShellLine.tokens
        rw [hbg]
        rfl
    | false =>
        have htoks : line.tokens = line.wordTokens ++ line.redirections.tokens := by
          unfold ShellLine.tokens
          rw [hbg]
          exact List.append_nil _
        rw [← htoks]
        rcases List.eq_nil_or_concat line.tokens with hnil | ⟨pre, a, hconcat⟩
        · exact absurd hnil hne
        · rw [List.concat_eq_append] at hconcat
          apply background_none hconcat
          rintro rfl
          have hmem : CmdToken.amper ∈ line.wordTokens ++ line.redirections.tokens := by
            rw [← htoks, hconcat]
            exact List.mem_append_right pre (List.mem_singleton.mpr rfl)
          rcases List.mem_append.mp hmem with hword | hred
          · rcases List.mem_map.mp hword with ⟨w, _, hw⟩
            cases hw
          · cases hr : line.redirections <;> rw [hr] at hred <;>
              simp [Redirections.tokens] at hred
  rcases hstart.redirections line with ⟨c, hc, htaken⟩
  refine ⟨c, ?_, htaken.describes line rfl rfl rfl⟩
  have hverified := (verified_iff htaken.split htaken.toReads).mpr ⟨hwords, line.words, rfl⟩
  rw [parse_eq hne hstart, hc]
  exact if_neg hverified

/-- The shell looks a command up if and only if the tokens are those of a command, and its
variables then describe it. -/
theorem shell_syntax (toks : List CmdToken) :
    ((∃ c, (layout toks).parse = .lookup c) ↔ ∃ line : ShellLine, line.tokens = toks) ∧
      ∀ (line : ShellLine) (c : Command), line.tokens = toks →
        (layout toks).parse = .lookup c → Describes toks line c := by
  refine ⟨⟨?_, ?_⟩, ?_⟩
  · rintro ⟨c, hc⟩
    exact parse_sound hc
  · rintro ⟨line, rfl⟩
    rcases parse_complete line with ⟨c, hc, _⟩
    exact ⟨c, hc⟩
  · rintro line c rfl hc
    rcases parse_complete line with ⟨c', hc', hdescribes⟩
    have hsame : c' = c := Parse.lookup.inj (hc'.symm.trans hc)
    exact hsame ▸ hdescribes

end

end BbbXinu
