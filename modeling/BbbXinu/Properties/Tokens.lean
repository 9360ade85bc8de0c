import BbbXinu.Shell.Lexan

/-!
# The tokens of a command line

A line is read from left to right as blanks and tokens, up to its end or to an error.  The
analyzer looks at the number of tokens before it skips blanks, so a line with as many tokens
as there may be must not end in a blank.
-/

namespace BbbXinu

/-!
## The grammar
-/

structure ShToken where
  typ : ShTok
  text : List Char
  deriving DecidableEq, Repr

/-- How the reading of a line ends. -/
inductive Ending where
  | complete | unmatched | appended
  deriving DecidableEq, Repr

def operatorType (c : Char) : Option ShTok :=
  if c = SH_AMPER then some .amper
  else if c = SH_LESS then some .less
  else if c = SH_GREATER then some .greater
  else none

/-- A word ends before a blank, an ampersand, or the end of the line. -/
def Stops (l : List Char) : Prop := ∀ c ∈ l.head?, IsBlank c ∨ c = SH_AMPER

/-- A line is read as tokens, up to its end or to an error. -/
inductive Scans : List Char → List ShToken → Ending → Prop where
  | nil : Scans [] [] .complete
  | blank {c : Char} {l : List Char} {ts : List ShToken} {e : Ending} (hc : IsBlank c)
      (h : Scans l ts e) : Scans (c :: l) ts e
  | operator {c : Char} {typ : ShTok} {l : List Char} {ts : List ShToken} {e : Ending}
      (hc : operatorType c = some typ) (h : Scans l ts e) :
      Scans (c :: l) ({ typ, text := [c] } :: ts) e
  | quoted {q : Char} {body l : List Char} {ts : List ShToken} {e : Ending} (hq : IsQuote q)
      (hbody : q ∉ body) (h : Scans l ts e) :
      Scans (q :: (body ++ q :: l)) ({ typ := .other, text := body } :: ts) e
  | unmatched {q : Char} {body : List Char} (hq : IsQuote q) (hbody : q ∉ body) :
      Scans (q :: body) [] .unmatched
  | word {w l : List Char} {ts : List ShToken} {e : Ending} (hne : w ≠ [])
      (hw : ∀ c ∈ w, InWord c) (hl : Stops l) (h : Scans l ts e) :
      Scans (w ++ l) ({ typ := .other, text := w } :: ts) e
  | appended {w l : List Char} {c : Char} (hne : w ≠ []) (hw : ∀ c ∈ w, InWord c)
      (hc : Appends c) : Scans (w ++ c :: l) [] .appended

/-- The characters before the end of a line. -/
def lineText (line : List Char) : List Char := line.takeWhile fun c => ¬IsEnd c

namespace Lex

/-- The string at a place of the token buffer. -/
def string (L : Lex) (i : Nat) : List Char := cstring (L.tokbuf.drop i)

/-- The tokens, as a caller finds them. -/
def tokens (L : Lex) : List ShToken :=
  (L.toktyp.zip L.tok).map fun x => { typ := x.1, text := L.string x.2 }

end Lex

/-- The line is read with an error, or with more tokens than there may be, and there is no
result; or its tokens are found. -/
def Lexes (line : List Char) (r : Option Lex) : Prop :=
  ∃ ts e, Scans (lineText line) ts e ∧
    match r with
    | none => e ≠ .complete ∨ SHELL_MAXTOK < ts.length
    | some L => e = .complete ∧ ts.length ≤ SHELL_MAXTOK ∧ L.ntok = ts.length ∧ L.tokens = ts

/-- A blank comes last. -/
def EndsBlank (l : List Char) : Prop := ∃ c ∈ l.getLast?, IsBlank c

instance (l : List Char) : Decidable (EndsBlank l) :=
  inferInstanceAs (Decidable (∃ c ∈ l.getLast?, IsBlank c))

/-- The line has as many tokens as there may be, and a blank behind the last one. -/
def Crowded (line : List Char) : Prop :=
  ∃ ts, Scans (lineText line) ts .complete ∧ ts.length = SHELL_MAXTOK ∧
    EndsBlank (lineText line)

section

variable {c q : Char} {l w body rest line : List Char} {ts ts' : List ShToken} {e e' : Ending}
  {L : Lex} {typ : ShTok} {n k : Nat}

/-!
## Classes of characters
-/

theorem operator_cases (h : operatorType c = some typ) :
    c = SH_AMPER ∧ typ = .amper ∨ c = SH_LESS ∧ typ = .less ∨ c = SH_GREATER ∧ typ = .greater := by
  unfold operatorType at h
  split at h
  · rename_i hc
    exact Or.inl ⟨hc, (Option.some.inj h).symm⟩
  · split at h
    · rename_i hc
      exact Or.inr (Or.inl ⟨hc, (Option.some.inj h).symm⟩)
    · split at h
      · rename_i hc
        exact Or.inr (Or.inr ⟨hc, (Option.some.inj h).symm⟩)
      · cases h

theorem IsBlank.not_end (h : IsBlank c) : ¬IsEnd c := by
  rcases h with rfl | rfl
  · decide
  · decide

theorem IsBlank.not_inWord (h : IsBlank c) : ¬InWord c := fun hw => hw.2.2.2.1 h

theorem IsQuote.not_inWord (h : IsQuote c) : ¬InWord c := fun hw => hw.2.2.2.2.2 h

theorem IsQuote.not_blank (h : IsQuote c) : ¬IsBlank c := by
  rcases h with rfl | rfl
  · decide
  · decide

theorem operator_not_inWord (h : operatorType c = some typ) : ¬InWord c := by
  rcases operator_cases h with ⟨rfl, _⟩ | ⟨rfl, _⟩ | ⟨rfl, _⟩
  · decide
  · decide
  · decide

theorem operator_not_blank (h : operatorType c = some typ) : ¬IsBlank c := by
  rcases operator_cases h with ⟨rfl, _⟩ | ⟨rfl, _⟩ | ⟨rfl, _⟩
  · decide
  · decide
  · decide

theorem operator_not_quote (h : operatorType c = some typ) : ¬IsQuote c := by
  rcases operator_cases h with ⟨rfl, _⟩ | ⟨rfl, _⟩ | ⟨rfl, _⟩
  · decide
  · decide
  · decide

theorem Appends.not_inWord (h : Appends c) : ¬InWord c := by
  rcases h with hq | rfl | rfl
  · exact hq.not_inWord
  · decide
  · decide

theorem Stops.not_appends (h : IsBlank c ∨ c = SH_AMPER) : ¬Appends c := by
  rcases h with (rfl | rfl) | rfl
  · decide
  · decide
  · decide

theorem Stops.not_inWord (h : IsBlank c ∨ c = SH_AMPER) : ¬InWord c := by
  rcases h with hb | rfl
  · exact hb.not_inWord
  · decide

/-- A character begins a blank, an operator, a quoted string or a word. -/
theorem char_cases (c : Char) (h : ¬IsEnd c) :
    IsBlank c ∨ (∃ typ, operatorType c = some typ) ∨ IsQuote c ∨ InWord c := by
  by_cases hb : IsBlank c
  · exact Or.inl hb
  · by_cases hq : IsQuote c
    · exact Or.inr (Or.inr (Or.inl hq))
    · cases ho : operatorType c with
      | some typ => exact Or.inr (Or.inl ⟨typ, rfl⟩)
      | none =>
          refine Or.inr (Or.inr (Or.inr ?_))
          unfold operatorType at ho
          split at ho
          · cases ho
          · rename_i hamper
            split at ho
            · cases ho
            · rename_i hless
              split at ho
              · cases ho
              · rename_i hgreater
                exact ⟨h, hless, hgreater, hb, hamper, hq⟩

/-!
## Words and quoted strings
-/

theorem takeWhile_append_stop {f : Char → Bool} (hw : ∀ c ∈ w, f c = true)
    (hl : ∀ c ∈ l.head?, f c = false) : (w ++ l).takeWhile f = w := by
  rw [List.takeWhile_append_of_pos hw]
  cases l with
  | nil => simp
  | cons c l => rw [List.takeWhile_cons, if_neg (by simp [hl c rfl]), List.append_nil]

theorem dropWhile_append_stop {f : Char → Bool} (hw : ∀ c ∈ w, f c = true)
    (hl : ∀ c ∈ l.head?, f c = false) : (w ++ l).dropWhile f = l := by
  rw [List.dropWhile_append_of_pos hw]
  cases l with
  | nil => rfl
  | cons c l => rw [List.dropWhile_cons, if_neg (by simp [hl c rfl])]

/-- What the loop does at the end of a line. -/
theorem lexLoop_end (h : IsEnd (line.headD NULLCH)) : lexLoop L line = some L := by
  rw [lexLoop, if_pos h]

theorem lexLoop_full (hline : ¬IsEnd (line.headD NULLCH)) (hfull : SHELL_MAXTOK ≤ L.ntok) :
    lexLoop L line = none := by
  rw [lexLoop, if_neg hline, if_pos hfull]

/-- A blank is skipped, but only while another token may come. -/
theorem lexLoop_blank (hc : IsBlank c) (p : List Char) :
    lexLoop L (c :: p) = if SHELL_MAXTOK ≤ L.ntok then none else lexLoop L p := by
  have hline : ¬IsEnd ((c :: p).headD NULLCH) := hc.not_end
  by_cases hfull : SHELL_MAXTOK ≤ L.ntok
  · rw [if_pos hfull, lexLoop_full hline hfull]
  · have hskip : (c :: p).dropWhile (fun c => decide (IsBlank c)) =
        p.dropWhile fun c => decide (IsBlank c) := List.dropWhile_cons_of_pos (decide_eq_true hc)
    rw [if_neg hfull]
    by_cases hend : IsEnd (p.headD NULLCH)
    · have hstop : p.dropWhile (fun c => decide (IsBlank c)) = p := by
        cases p with
        | nil => rfl
        | cons d p =>
            have hd : ¬IsBlank d := fun hb => hb.not_end hend
            exact List.dropWhile_cons_of_neg (by simpa using hd)
      rw [lexLoop_end hend, lexLoop, if_neg hline, if_neg hfull, hskip, hstop]
      exact if_pos hend
    · conv =>
        rhs
        rw [lexLoop, if_neg hend, if_neg hfull]
      rw [lexLoop, if_neg hline, if_neg hfull, hskip]

/-- The body of the loop at a character that begins a token. -/
theorem lexLoop_begin (hb : ¬IsBlank c) (hend : ¬IsEnd c) (p : List Char) :
    lexLoop L (c :: p) =
      if SHELL_MAXTOK ≤ L.ntok then none
      else if c = SH_AMPER then lexLoop (L.token .amper [c]) p
      else if c = SH_LESS then lexLoop (L.token .less [c]) p
      else if c = SH_GREATER then lexLoop (L.token .greater [c]) p
      else if IsQuote c then
        if (p.dropWhile fun d => d ≠ c ∧ ¬IsEnd d).headD NULLCH ≠ c then none
        else
          lexLoop (L.token .other (p.takeWhile fun d => d ≠ c ∧ ¬IsEnd d))
            (p.dropWhile fun d => d ≠ c ∧ ¬IsEnd d).tail
      else if Appends ((p.dropWhile fun d => InWord d).headD NULLCH) then none
      else
        lexLoop (L.token .other (c :: p.takeWhile fun d => InWord d))
          (p.dropWhile fun d => InWord d) := by
  have hline : ¬IsEnd ((c :: p).headD NULLCH) := hend
  have hskip : (c :: p).dropWhile (fun c => decide (IsBlank c)) = c :: p :=
    List.dropWhile_cons_of_neg (by simpa using hb)
  conv =>
    lhs
    rw [lexLoop, if_neg hline, hskip]
  by_cases hfull : SHELL_MAXTOK ≤ L.ntok
  · rw [if_pos hfull, if_pos hfull]
  · rw [if_neg hfull, if_neg hfull]
    exact if_neg hend

theorem lexLoop_operator (hc : operatorType c = some typ) (p : List Char) :
    lexLoop L (c :: p) = if SHELL_MAXTOK ≤ L.ntok then none else lexLoop (L.token typ [c]) p := by
  have hend : ¬IsEnd c := by
    rcases operator_cases hc with ⟨rfl, _⟩ | ⟨rfl, _⟩ | ⟨rfl, _⟩
    · decide
    · decide
    · decide
  rw [lexLoop_begin (operator_not_blank hc) hend]
  rcases operator_cases hc with ⟨rfl, rfl⟩ | ⟨rfl, rfl⟩ | ⟨rfl, rfl⟩
  · rw [if_pos (rfl : SH_AMPER = SH_AMPER)]
  · rw [if_neg (by decide : ¬SH_LESS = SH_AMPER), if_pos (rfl : SH_LESS = SH_LESS)]
  · rw [if_neg (by decide : ¬SH_GREATER = SH_AMPER), if_neg (by decide : ¬SH_GREATER = SH_LESS),
      if_pos (rfl : SH_GREATER = SH_GREATER)]

theorem IsQuote.not_end (h : IsQuote c) : ¬IsEnd c := by
  rcases h with rfl | rfl
  · decide
  · decide

/-- What the loop does at a quote. -/
theorem lexLoop_quote (hq : IsQuote q) (p : List Char) :
    lexLoop L (q :: p) =
      if SHELL_MAXTOK ≤ L.ntok then none
      else if (p.dropWhile fun d => d ≠ q ∧ ¬IsEnd d).headD NULLCH ≠ q then none
      else
        lexLoop (L.token .other (p.takeWhile fun d => d ≠ q ∧ ¬IsEnd d))
          (p.dropWhile fun d => d ≠ q ∧ ¬IsEnd d).tail := by
  have hne : q ≠ SH_AMPER ∧ q ≠ SH_LESS ∧ q ≠ SH_GREATER := by
    rcases hq with rfl | rfl
    · decide
    · decide
  rw [lexLoop_begin hq.not_blank hq.not_end, if_neg hne.1, if_neg hne.2.1, if_neg hne.2.2,
    if_pos hq]

/-- What the loop does at a character of a word. -/
theorem lexLoop_word (hc : InWord c) (p : List Char) :
    lexLoop L (c :: p) =
      if SHELL_MAXTOK ≤ L.ntok then none
      else if Appends ((p.dropWhile fun d => InWord d).headD NULLCH) then none
      else
        lexLoop (L.token .other (c :: p.takeWhile fun d => InWord d))
          (p.dropWhile fun d => InWord d) := by
  rcases hc with ⟨hend, hless, hgreater, hb, hamper, hq⟩
  rw [lexLoop_begin hb hend, if_neg hamper, if_neg hless, if_neg hgreater, if_neg hq]

/-!
## Trailing blanks
-/

theorem endsBlank_append (hw : ∀ c ∈ w.getLast?, ¬IsBlank c) :
    EndsBlank (w ++ l) ↔ EndsBlank l := by
  unfold EndsBlank
  rw [List.getLast?_append]
  cases hlast : l.getLast? with
  | some c => rfl
  | none =>
      apply iff_of_false
      · rintro ⟨c, hc, hb⟩
        exact hw c hc hb
      · rintro ⟨c, hc, _⟩
        cases hc

/-- After a blank only the last character matters. -/
theorem endsBlank_blank (hc : IsBlank c) : EndsBlank (c :: l) ↔ l = [] ∨ EndsBlank l := by
  unfold EndsBlank
  rw [List.getLast?_cons]
  cases hlast : l.getLast? with
  | none =>
      have hnil := List.getLast?_eq_none_iff.mp hlast
      exact iff_of_true ⟨c, rfl, hc⟩ (Or.inl hnil)
  | some d =>
      have hne : l ≠ [] := fun h => by
        rw [h] at hlast
        cases hlast
      constructor
      · exact fun h => Or.inr h
      · rintro (h | h)
        · exact absurd h hne
        · exact h

/-!
## The loop
-/

/-- Some more tokens. -/
def Lex.add (L : Lex) (ts : List ShToken) : Lex := ts.foldl (fun L t => L.token t.typ t.text) L

/-- The loop gets to the end of the rest of a line, when it has found {lit}`n` tokens and there
are {lit}`k` more. -/
def FitsLine (n k : Nat) (l : List Char) (e : Ending) : Prop :=
  e = .complete ∧ n + k ≤ SHELL_MAXTOK ∧ ¬(n + k = SHELL_MAXTOK ∧ EndsBlank l)

instance (n k : Nat) (l : List Char) (e : Ending) : Decidable (FitsLine n k l e) :=
  inferInstanceAs (Decidable (_ ∧ _))

theorem ntok_token (L : Lex) (typ : ShTok) (text : List Char) :
    (L.token typ text).ntok = L.ntok + 1 := List.length_append

theorem fitsLine_token (hblank : EndsBlank (w ++ l) ↔ EndsBlank l) :
    FitsLine n (k + 1) (w ++ l) e ↔ ¬SHELL_MAXTOK ≤ n ∧ FitsLine (n + 1) k l e := by
  unfold FitsLine
  rw [hblank, Nat.add_assoc n 1 k, Nat.add_comm 1 k]
  constructor
  · rintro ⟨he, hle, hcrowd⟩
    exact ⟨by omega, he, hle, hcrowd⟩
  · rintro ⟨_, he, hle, hcrowd⟩
    exact ⟨he, hle, hcrowd⟩

theorem fitsLine_blank (hc : IsBlank c) (hn : n ≤ SHELL_MAXTOK) (hk : l = [] → k = 0)
    (hnil : k = 0 → ¬EndsBlank (c :: l) → e ≠ .complete) :
    FitsLine n k (c :: l) e ↔ ¬SHELL_MAXTOK ≤ n ∧ FitsLine n k l e := by
  unfold FitsLine
  rw [endsBlank_blank hc]
  constructor
  · rintro ⟨he, hle, hcrowd⟩
    refine ⟨?_, he, hle, fun h => hcrowd ⟨h.1, Or.inr h.2⟩⟩
    intro hfull
    have hzero : k = 0 := by omega
    apply hnil hzero _ he
    exact fun hb => hcrowd ⟨by omega, (endsBlank_blank hc).mp hb⟩
  · rintro ⟨hroom, he, hle, hcrowd⟩
    refine ⟨he, hle, ?_⟩
    rintro ⟨heq, hl | hb⟩
    · have hzero := hk hl
      omega
    · exact hcrowd ⟨heq, hb⟩

theorem Scans.of_nil (h : Scans [] ts e) : ts = [] ∧ e = .complete := by
  generalize hl : ([] : List Char) = l at h
  cases h with
  | nil => exact ⟨rfl, rfl⟩
  | word hne hw hstop h => exact absurd (List.append_eq_nil_iff.mp hl.symm).1 hne
  | appended hne hw hc => exact absurd (List.append_eq_nil_iff.mp hl.symm).1 hne
  | unmatched hq hbody => cases hl
  | blank hc h => cases hl
  | operator hc h => cases hl
  | quoted hq hbody h => cases hl

/-- A line without tokens and errors is blank. -/
theorem Scans.endsBlank (h : Scans l [] .complete) : l = [] ∨ EndsBlank l := by
  generalize hts : ([] : List ShToken) = ts at h
  generalize he : Ending.complete = e at h
  induction h with
  | nil => exact Or.inl rfl
  | blank hc _ ih => exact Or.inr ((endsBlank_blank hc).mpr (ih hts he))
  | operator hc _ _ => cases hts
  | quoted hq hbody _ _ => cases hts
  | word hne hw hstop _ _ => cases hts
  | unmatched hq hbody => cases he
  | appended hne hw hc => cases he

/-- Another token is found in a line of which the rest is {lit}`l`. -/
theorem lexLoop_token {tok : ShToken} (hblank : EndsBlank (w ++ l) ↔ EndsBlank l)
    (hstep : lexLoop L (w ++ l ++ rest) =
      if SHELL_MAXTOK ≤ L.ntok then none else lexLoop (L.token tok.typ tok.text) (l ++ rest))
    (ih : L.ntok < SHELL_MAXTOK → lexLoop (L.token tok.typ tok.text) (l ++ rest) =
      if FitsLine (L.token tok.typ tok.text).ntok ts.length l e then
        some ((L.token tok.typ tok.text).add ts) else none) :
    lexLoop L (w ++ l ++ rest) =
      if FitsLine L.ntok (tok :: ts).length (w ++ l) e then some (L.add (tok :: ts)) else none := by
  rw [hstep, List.length_cons, if_congr (fitsLine_token hblank) rfl rfl]
  by_cases hfull : SHELL_MAXTOK ≤ L.ntok
  · rw [if_pos hfull, if_neg fun h => h.1 hfull]
  · rw [if_neg hfull, ih (Nat.lt_of_not_le hfull), ntok_token]
    exact if_congr (and_iff_right hfull).symm rfl rfl

theorem getLast?_inWord (hw : ∀ c ∈ w, InWord c) : ∀ c ∈ w.getLast?, ¬IsBlank c :=
  fun c hc hb => hb.not_inWord (hw c (List.mem_of_getLast? hc))

theorem IsEnd.not_inWord (h : IsEnd c) : ¬InWord c := fun hw => hw.1 h

theorem IsEnd.not_appends (h : IsEnd c) : ¬Appends c := by
  rcases h with rfl | rfl
  · decide
  · decide

/-- A string with its end quote is one token. -/
theorem lexLoop_quoted (hq : IsQuote q) (hbody : ∀ d ∈ body, d ≠ q ∧ ¬IsEnd d) (p : List Char) :
    lexLoop L (q :: (body ++ q :: p)) =
      if SHELL_MAXTOK ≤ L.ntok then none else lexLoop (L.token .other body) p := by
  have hall : ∀ d ∈ body, decide (d ≠ q ∧ ¬IsEnd d) = true :=
    fun d hd => decide_eq_true (hbody d hd)
  have hstop : ∀ d ∈ (q :: p).head?, decide (d ≠ q ∧ ¬IsEnd d) = false := by
    intro d hd
    cases hd
    exact decide_eq_false fun h => h.1 rfl
  have hsame : ¬((q :: p).headD NULLCH ≠ q) := not_not.mpr rfl
  rw [lexLoop_quote hq, dropWhile_append_stop hall hstop, takeWhile_append_stop hall hstop,
    if_neg hsame, List.tail_cons]

/-- A string without its end quote is an error. -/
theorem lexLoop_unmatched (hq : IsQuote q) (hbody : ∀ d ∈ body, d ≠ q ∧ ¬IsEnd d)
    (hrest : IsEnd (rest.headD NULLCH)) : lexLoop L (q :: (body ++ rest)) = none := by
  have hall : ∀ d ∈ body, decide (d ≠ q ∧ ¬IsEnd d) = true :=
    fun d hd => decide_eq_true (hbody d hd)
  have hstop : ∀ d ∈ rest.head?, decide (d ≠ q ∧ ¬IsEnd d) = false := by
    intro d hd
    rw [List.headD_eq_head?_getD, hd] at hrest
    exact decide_eq_false fun h => h.2 hrest
  have hne : rest.headD NULLCH ≠ q := fun h => hq.not_end (h ▸ hrest)
  rw [lexLoop_quote hq, dropWhile_append_stop hall hstop, if_pos hne, ite_self]

theorem isEnd_newline : IsEnd SH_NEWLINE := Or.inr rfl

/-- Characters are tested one after the other. -/
theorem forall_of_all {P : Char → Prop} [DecidablePred P] {cs : List Char}
    (h : (cs.all fun c => decide (P c)) = true) : ∀ c ∈ cs, P c :=
  fun c hc => of_decide_eq_true (List.all_eq_true.mp h c hc)

/-- The character behind a word decides whether the word is a token. -/
theorem lexLoop_words (hne : w ≠ []) (hw : ∀ c ∈ w, InWord c) {p : List Char}
    (hp : ¬InWord (p.headD NULLCH)) :
    lexLoop L (w ++ p) =
      if SHELL_MAXTOK ≤ L.ntok then none
      else if Appends (p.headD NULLCH) then none
      else lexLoop (L.token .other w) p := by
  cases w with
  | nil => exact absurd rfl hne
  | cons c w =>
      have hall : ∀ d ∈ w, decide (InWord d) = true :=
        fun d hd => decide_eq_true (hw d (List.mem_cons_of_mem c hd))
      have hstop : ∀ d ∈ p.head?, decide (InWord d) = false := by
        intro d hd
        rw [List.headD_eq_head?_getD, hd] at hp
        exact decide_eq_false hp
      rw [List.cons_append, lexLoop_word (hw c List.mem_cons_self),
        dropWhile_append_stop hall hstop, takeWhile_append_stop hall hstop]

/-- What is behind a word in a line of which {lit}`rest` is the end. -/
theorem headD_append_end (hrest : IsEnd (rest.headD NULLCH)) {P : Char → Prop}
    (hend : ∀ c, IsEnd c → P c) (hl : ∀ c ∈ l.head?, P c) : P ((l ++ rest).headD NULLCH) := by
  cases l with
  | nil => exact hend _ hrest
  | cons c l => exact hl c rfl

/-- The loop finds the tokens of the rest of a line. -/
theorem lexLoop_scans (h : Scans l ts e) (hl : ∀ c ∈ l, ¬IsEnd c)
    (hrest : IsEnd (rest.headD NULLCH)) (hL : L.ntok ≤ SHELL_MAXTOK) :
    lexLoop L (l ++ rest) =
      if FitsLine L.ntok ts.length l e then some (L.add ts) else none := by
  induction h generalizing L with
  | nil =>
      have hfits : FitsLine L.ntok 0 [] .complete := ⟨rfl, hL, fun hcrowd => by
        rcases hcrowd.2 with ⟨c, hc, _⟩
        cases hc⟩
      rw [List.nil_append, lexLoop_end hrest, List.length_nil, if_pos hfits]
      rfl
  | @blank c l ts e hc h ih =>
      have htail : ∀ d ∈ l, ¬IsEnd d := fun d hd => hl d (List.mem_cons_of_mem c hd)
      have hnil : ts.length = 0 → ¬EndsBlank (c :: l) → e ≠ .complete := by
        rintro hzero hno rfl
        rw [List.length_eq_zero_iff.mp hzero] at h
        exact hno ((endsBlank_blank hc).mpr h.endsBlank)
      have hempty : l = [] → ts.length = 0 := by
        rintro rfl
        rw [h.of_nil.1, List.length_nil]
      rw [List.cons_append, lexLoop_blank hc, if_congr (fitsLine_blank hc hL hempty hnil) rfl rfl,
        ih htail hL]
      by_cases hfull : SHELL_MAXTOK ≤ L.ntok
      · rw [if_pos hfull, if_neg fun h => h.1 hfull]
      · rw [if_neg hfull]
        exact if_congr (and_iff_right hfull).symm rfl rfl
  | @operator c typ l ts e hc h ih =>
      apply lexLoop_token (w := [c]) (endsBlank_append ?_) (lexLoop_operator hc (l ++ rest))
      · intro hroom
        exact ih (fun d hd => hl d (List.mem_cons_of_mem c hd)) (by rw [ntok_token]; omega)
      · intro d hd
        cases hd
        exact operator_not_blank hc
  | @quoted q body l ts e hq hbody h ih =>
      have hassoc : q :: (body ++ q :: l) = (q :: (body ++ [q])) ++ l := by simp
      have hchars : ∀ d ∈ body, d ≠ q ∧ ¬IsEnd d := fun d hd =>
        ⟨fun hdq => hbody (hdq ▸ hd),
          hl d (List.mem_cons_of_mem q (List.mem_append_left _ hd))⟩
      have htail : ∀ d ∈ l, ¬IsEnd d := fun d hd =>
        hl d (List.mem_cons_of_mem q (List.mem_append_right _ (List.mem_cons_of_mem q hd)))
      rw [hassoc]
      apply lexLoop_token (endsBlank_append ?_) ?_
      · exact fun hroom => ih htail (by rw [ntok_token]; omega)
      · intro d hd
        have hlast : (q :: (body ++ [q])).getLast? = some q := by
          rw [← List.cons_append, List.getLast?_concat]
        rw [hlast] at hd
        cases hd
        exact hq.not_blank
      · have hlist : q :: (body ++ [q]) ++ l ++ rest = q :: (body ++ q :: (l ++ rest)) := by simp
        rw [hlist]
        exact lexLoop_quoted hq hchars (l ++ rest)
  | @unmatched q body hq hbody =>
      have hchars : ∀ d ∈ body, d ≠ q ∧ ¬IsEnd d :=
        fun d hd => ⟨fun hdq => hbody (hdq ▸ hd), hl d (List.mem_cons_of_mem q hd)⟩
      rw [if_neg fun h => absurd h.1 (by decide)]
      exact lexLoop_unmatched hq hchars hrest
  | @word w l ts e hne hw hstop h ih =>
      have htail : ∀ d ∈ l, ¬IsEnd d := fun d hd => hl d (List.mem_append_right _ hd)
      have hinword : ¬InWord ((l ++ rest).headD NULLCH) :=
        headD_append_end hrest (fun _ => IsEnd.not_inWord)
          fun c hc => Stops.not_inWord (hstop c hc)
      have happends : ¬Appends ((l ++ rest).headD NULLCH) :=
        headD_append_end hrest (fun _ => IsEnd.not_appends)
          fun c hc => Stops.not_appends (hstop c hc)
      apply lexLoop_token (endsBlank_append (getLast?_inWord hw)) ?_
      · exact fun hroom => ih htail (by rw [ntok_token]; omega)
      · rw [List.append_assoc, lexLoop_words hne hw hinword, if_neg happends]
  | @appended w l c hne hw hc =>
      have hinword : ¬InWord ((c :: l ++ rest).headD NULLCH) := hc.not_inWord
      have happends : Appends ((c :: l ++ rest).headD NULLCH) := hc
      rw [if_neg fun h => absurd h.1 (by decide), List.append_assoc, lexLoop_words hne hw hinword,
        if_pos happends, ite_self]

/-!
## The arrays
-/

/-- Each type has an index, and each index is that of a string in the buffer. -/
structure Lex.Ok (L : Lex) : Prop where
  types : L.toktyp.length = L.tok.length
  ends : ∀ i ∈ L.tok, ∃ s t, NULLCH ∉ s ∧ i ≤ L.tlen ∧ L.tokbuf.drop i = s ++ NULLCH :: t

namespace Lex

theorem empty_ok : empty.Ok where
  types := rfl
  ends := fun i hi => by cases hi

/-- What the buffer has behind an index that it has already. -/
theorem drop_token (L : Lex) (typ : ShTok) (text : List Char) (hn : n ≤ L.tlen) :
    (L.token typ text).tokbuf.drop n = L.tokbuf.drop n ++ (text ++ [NULLCH]) := by
  unfold token
  rw [List.append_assoc, List.drop_append_of_le_length hn]

theorem drop_tlen (L : Lex) (typ : ShTok) (text : List Char) :
    (L.token typ text).tokbuf.drop L.tlen = text ++ [NULLCH] := by
  rw [drop_token L typ text (Nat.le_refl _), tlen, List.drop_length, List.nil_append]

theorem Ok.token (h : L.Ok) (typ : ShTok) {text : List Char} (htext : NULLCH ∉ text) :
    (L.token typ text).Ok where
  types := by
    unfold Lex.token
    rw [List.length_append, List.length_append, h.types, List.length_singleton,
      List.length_singleton]
  ends := by
    intro i hi
    have hgrow : L.tlen ≤ (L.token typ text).tlen := by
      unfold tlen Lex.token
      rw [List.append_assoc, List.length_append]
      exact Nat.le_add_right _ _
    rcases List.mem_append.mp hi with hold | hnew
    · rcases h.ends i hold with ⟨s, t, hs, hle, hdrop⟩
      refine ⟨s, t ++ (text ++ [NULLCH]), hs, hle.trans hgrow, ?_⟩
      rw [drop_token L typ text hle, hdrop, List.append_assoc, List.cons_append]
    · cases List.mem_singleton.mp hnew
      exact ⟨text, [], htext, hgrow, drop_tlen L typ text⟩

/-- The strings that are in the buffer stay as they are. -/
theorem Ok.string_token (h : L.Ok) (typ : ShTok) (text : List Char) (hn : n ∈ L.tok) :
    (L.token typ text).string n = L.string n := by
  rcases h.ends n hn with ⟨s, t, hs, hle, hdrop⟩
  unfold string
  rw [drop_token L typ text hle, hdrop, List.append_assoc, List.cons_append,
    cstring_append_null hs, cstring_append_null hs]

theorem Ok.tokens_token (h : L.Ok) (typ : ShTok) {text : List Char} (htext : NULLCH ∉ text) :
    (L.token typ text).tokens = L.tokens ++ [ShToken.mk typ text] := by
  have hold : (L.toktyp.zip L.tok).map
      (fun x => ShToken.mk x.1 ((L.token typ text).string x.2)) =
        L.tokens := by
    apply List.map_congr_left
    intro x hx
    rw [h.string_token typ text (List.of_mem_zip hx).2]
  have hnew : (L.token typ text).string L.tlen = text := by
    unfold string
    rw [drop_tlen L typ text, cstring_append_null htext]
  have hzip : (L.token typ text).toktyp.zip (L.token typ text).tok =
      L.toktyp.zip L.tok ++ [(typ, L.tlen)] := List.zip_append h.types
  change ((L.token typ text).toktyp.zip (L.token typ text).tok).map
    (fun x => ShToken.mk x.1 ((L.token typ text).string x.2)) = L.tokens ++ [ShToken.mk typ text]
  rw [hzip, List.map_append, hold, List.map_singleton, hnew]

/-- Tokens without null characters are found again. -/
theorem Ok.tokens_add (h : L.Ok) (hts : ∀ t ∈ ts, NULLCH ∉ t.text) :
    (L.add ts).tokens = L.tokens ++ ts := by
  induction ts generalizing L with
  | nil => exact (List.append_nil _).symm
  | cons t ts ih =>
      have htext := hts t List.mem_cons_self
      have hrest : ∀ t ∈ ts, NULLCH ∉ t.text := fun u hu => hts u (List.mem_cons_of_mem t hu)
      have hadd : L.add (t :: ts) = (L.token t.typ t.text).add ts := rfl
      rw [hadd, ih (h.token t.typ htext) hrest, h.tokens_token t.typ htext, List.append_assoc,
        List.singleton_append]

theorem ntok_add (L : Lex) (ts : List ShToken) : (L.add ts).ntok = L.ntok + ts.length := by
  induction ts generalizing L with
  | nil => rfl
  | cons t ts ih =>
      have hadd : L.add (t :: ts) = (L.token t.typ t.text).add ts := rfl
      rw [hadd, ih, ntok_token, List.length_cons, Nat.add_assoc, Nat.add_comm 1]

end Lex

/-- A token is made of characters of the line. -/
theorem Scans.mem_line (h : Scans l ts e) : ∀ t ∈ ts, ∀ c ∈ t.text, c ∈ l := by
  induction h with
  | nil => exact fun t ht => by cases ht
  | blank hc h ih => exact fun t ht c hc => List.mem_cons_of_mem _ (ih t ht c hc)
  | operator hc h ih =>
      intro t ht c hmem
      rcases List.mem_cons.mp ht with rfl | htail
      · rw [List.mem_singleton.mp hmem]
        exact List.mem_cons_self
      · exact List.mem_cons_of_mem _ (ih t htail c hmem)
  | quoted hq hbody h ih =>
      intro t ht c hmem
      apply List.mem_cons_of_mem
      apply List.mem_append.mpr
      rcases List.mem_cons.mp ht with rfl | htail
      · exact Or.inl hmem
      · exact Or.inr (List.mem_cons_of_mem _ (ih t htail c hmem))
  | unmatched hq hbody => exact fun t ht => by cases ht
  | word hne hw hl h ih =>
      intro t ht c hmem
      apply List.mem_append.mpr
      rcases List.mem_cons.mp ht with rfl | htail
      · exact Or.inl hmem
      · exact Or.inr (ih t htail c hmem)
  | appended hne hw hc => exact fun t ht => by cases ht

/-!
## One reading

A line has exactly one reading.
-/

/-- The longest beginning of which every character has a property. -/
theorem exists_longest {P : Char → Prop} [DecidablePred P] (l : List Char) :
    ∃ w rest, l = w ++ rest ∧ (∀ c ∈ w, P c) ∧ ∀ c ∈ rest.head?, ¬P c := by
  refine ⟨l.takeWhile fun c => P c, l.dropWhile fun c => P c,
    List.takeWhile_append_dropWhile.symm, ?_, ?_⟩
  · intro c hc
    have hpos := List.mem_takeWhile_imp hc
    exact of_decide_eq_true hpos
  · intro c hc
    have hstop := List.head?_dropWhile_not (fun c => decide (P c)) l
    rw [hc] at hstop
    exact of_decide_eq_false hstop

/-- Two longest beginnings of one line are the same. -/
theorem longest_unique {P : Char → Prop} [DecidablePred P] {w' rest' : List Char}
    (h : w ++ rest = w' ++ rest') (hw : ∀ c ∈ w, P c) (hw' : ∀ c ∈ w', P c)
    (hrest : ∀ c ∈ rest.head?, ¬P c) (hrest' : ∀ c ∈ rest'.head?, ¬P c) :
    w = w' ∧ rest = rest' := by
  have htake := congrArg (List.takeWhile fun c => decide (P c)) h
  rw [takeWhile_append_stop (fun c hc => decide_eq_true (hw c hc))
      fun c hc => decide_eq_false (hrest c hc),
    takeWhile_append_stop (fun c hc => decide_eq_true (hw' c hc))
      fun c hc => decide_eq_false (hrest' c hc)] at htake
  subst htake
  exact ⟨rfl, List.append_cancel_left h⟩

/-- A word is a token, or there is an error behind it. -/
theorem stops_or_appends (hend : ∀ c ∈ l.head?, ¬IsEnd c) (hword : ∀ c ∈ l.head?, ¬InWord c) :
    Stops l ∨ ∃ c p, l = c :: p ∧ Appends c := by
  cases l with
  | nil => exact Or.inl fun c hc => by cases hc
  | cons c p =>
      rcases char_cases c (hend c rfl) with hb | ⟨typ, ho⟩ | hq | hw
      · exact Or.inl fun d hd => by
          cases hd
          exact Or.inl hb
      · rcases operator_cases ho with h | h | h
        · exact Or.inl fun d hd => by
            cases hd
            exact Or.inr h.1
        · exact Or.inr ⟨c, p, rfl, Or.inr (Or.inl h.1)⟩
        · exact Or.inr ⟨c, p, rfl, Or.inr (Or.inr h.1)⟩
      · exact Or.inr ⟨c, p, rfl, Or.inl hq⟩
      · exact absurd hw (hword c rfl)

/-- Every line can be read. -/
theorem exists_scans (l : List Char) (hl : ∀ c ∈ l, ¬IsEnd c) : ∃ ts e, Scans l ts e := by
  induction hn : l.length using Nat.strong_induction_on generalizing l with
  | _ n ih =>
  subst hn
  cases l with
  | nil => exact ⟨[], .complete, .nil⟩
  | cons c l =>
      have hrec : ∀ p, p <:+ l → ∃ ts e, Scans p ts e := fun p hp =>
        ih p.length (Nat.lt_succ_of_le hp.length_le) p
          (fun d hd => hl d (List.mem_cons_of_mem c (hp.subset hd))) rfl
      rcases char_cases c (hl c List.mem_cons_self) with hb | ⟨typ, ho⟩ | hq | hw
      · rcases hrec l (List.suffix_refl l) with ⟨ts, e, h⟩
        exact ⟨ts, e, .blank hb h⟩
      · rcases hrec l (List.suffix_refl l) with ⟨ts, e, h⟩
        exact ⟨_, e, .operator ho h⟩
      · rcases exists_longest (P := fun d => d ≠ c) l with ⟨body, rest, rfl, hbody, hrest⟩
        have hnot : c ∉ body := fun h => hbody c h rfl
        cases rest with
        | nil =>
            rw [List.append_nil]
            exact ⟨[], .unmatched, .unmatched hq hnot⟩
        | cons d rest =>
            cases Classical.not_not.mp (hrest d rfl)
            rcases hrec rest ⟨body ++ [c], by simp⟩ with ⟨ts, e, h⟩
            exact ⟨_, e, .quoted hq hnot h⟩
      · rcases exists_longest (P := InWord) l with ⟨w, rest, rfl, hword, hrest⟩
        have hall : ∀ d ∈ c :: w, InWord d := by
          intro d hd
          rcases List.mem_cons.mp hd with rfl | hd
          · exact hw
          · exact hword d hd
        have hends : ∀ d ∈ rest.head?, ¬IsEnd d := fun d hd =>
          hl d (List.mem_cons_of_mem c (List.mem_append_right w (List.mem_of_head? hd)))
        rcases stops_or_appends hends hrest with hstop | ⟨d, p, rfl, hd⟩
        · rcases hrec rest (List.suffix_append w rest) with ⟨ts, e, h⟩
          exact ⟨_, e, .word (List.cons_ne_nil c w) hall hstop h⟩
        · exact ⟨[], .appended, .appended (List.cons_ne_nil c w) hall hd⟩

/-- What a reading says about the first character. -/
theorem Scans.first (h : Scans (c :: l) ts e) :
    (IsBlank c ∧ Scans l ts e) ∨
    (∃ typ ts', operatorType c = some typ ∧ ts = ⟨typ, [c]⟩ :: ts' ∧ Scans l ts' e) ∨
    (IsQuote c ∧
      ((∃ body rest ts', c ∉ body ∧ l = body ++ c :: rest ∧ ts = ⟨.other, body⟩ :: ts' ∧
          Scans rest ts' e) ∨
        c ∉ l ∧ ts = [] ∧ e = .unmatched)) ∨
    (InWord c ∧ ∃ w rest, (∀ d ∈ w, InWord d) ∧ c :: l = w ++ rest ∧
      ((∃ ts', Stops rest ∧ ts = ⟨.other, w⟩ :: ts' ∧ Scans rest ts' e) ∨
        ∃ d ∈ rest.head?, Appends d ∧ ts = [] ∧ e = .appended)) := by
  generalize hp : c :: l = p at h
  cases h with
  | nil => cases hp
  | blank hc h =>
      cases hp
      exact Or.inl ⟨hc, h⟩
  | operator hc h =>
      cases hp
      exact Or.inr (Or.inl ⟨_, _, hc, rfl, h⟩)
  | quoted hq hbody h =>
      cases hp
      exact Or.inr (Or.inr (Or.inl ⟨hq, Or.inl ⟨_, _, _, hbody, rfl, rfl, h⟩⟩))
  | unmatched hq hbody =>
      cases hp
      exact Or.inr (Or.inr (Or.inl ⟨hq, Or.inr ⟨hbody, rfl, rfl⟩⟩))
  | @word w p ts' e hne hw hl h =>
      have hc : InWord c := by
        cases w with
        | nil => exact absurd rfl hne
        | cons d w =>
            cases (List.cons_eq_cons.mp hp).1
            exact hw c List.mem_cons_self
      exact Or.inr (Or.inr (Or.inr ⟨hc, w, p, hw, rfl, Or.inl ⟨ts', hl, rfl, h⟩⟩))
  | @appended w p d hne hw hd =>
      have hc : InWord c := by
        cases w with
        | nil => exact absurd rfl hne
        | cons d w =>
            cases (List.cons_eq_cons.mp hp).1
            exact hw c List.mem_cons_self
      exact Or.inr (Or.inr (Or.inr ⟨hc, w, d :: p, hw, rfl, Or.inr ⟨d, rfl, hd, rfl, rfl⟩⟩))

theorem Scans.word_inv (hne : w ≠ []) (hw : ∀ c ∈ w, InWord c) (h : Scans (w ++ l) ts e) :
    ∃ w' rest, (∀ d ∈ w', InWord d) ∧ w ++ l = w' ++ rest ∧
      ((∃ ts', Stops rest ∧ ts = ⟨.other, w'⟩ :: ts' ∧ Scans rest ts' e) ∨
        ∃ d ∈ rest.head?, Appends d ∧ ts = [] ∧ e = .appended) := by
  cases w with
  | nil => exact absurd rfl hne
  | cons c w =>
      have hc := hw c List.mem_cons_self
      rcases Scans.first h with ⟨hb, _⟩ | ⟨_, _, ho, _⟩ | ⟨hq, _⟩ | ⟨_, hword⟩
      · exact absurd hc hb.not_inWord
      · exact absurd hc (operator_not_inWord ho)
      · exact absurd hc hq.not_inWord
      · exact hword

theorem Scans.unique (h : Scans l ts e) (h' : Scans l ts' e') : ts = ts' ∧ e = e' := by
  induction h generalizing ts' e' with
  | nil => exact ⟨h'.of_nil.1.symm, h'.of_nil.2.symm⟩
  | blank hc h ih =>
      rcases h'.first with ⟨_, h'⟩ | ⟨_, _, ho, _⟩ | ⟨hq, _⟩ | ⟨hw, _⟩
      · exact ih h'
      · exact absurd hc (operator_not_blank ho)
      · exact absurd hc hq.not_blank
      · exact absurd hw hc.not_inWord
  | operator hc h ih =>
      rcases h'.first with ⟨hb, _⟩ | ⟨typ, ts', ho, rfl, hnext⟩ | ⟨hq, _⟩ | ⟨hw, _⟩
      · exact absurd hb (operator_not_blank hc)
      · cases Option.some.inj (hc.symm.trans ho)
        rcases ih hnext with ⟨rfl, rfl⟩
        exact ⟨rfl, rfl⟩
      · exact absurd hq (operator_not_quote hc)
      · exact absurd hw (operator_not_inWord hc)
  | @quoted q body l ts e hq hbody h ih =>
      rcases h'.first with ⟨hb, _⟩ | ⟨_, _, ho, _⟩ | ⟨_, hstring⟩ | ⟨hw, _⟩
      · exact absurd hb hq.not_blank
      · exact absurd hq (operator_not_quote ho)
      · rcases hstring with ⟨body', rest, ts', hbody', heq, rfl, h'⟩ | ⟨hnot, _⟩
        · have hsame := longest_unique (P := fun d => d ≠ q) heq (fun d hd hdq => hbody (hdq ▸ hd))
            (fun d hd hdq => hbody' (hdq ▸ hd)) (fun d hd => by cases hd; exact fun h => h rfl)
            fun d hd => by cases hd; exact fun h => h rfl
          rcases hsame with ⟨rfl, htail⟩
          cases htail
          rcases ih h' with ⟨rfl, rfl⟩
          exact ⟨rfl, rfl⟩
        · exact absurd (List.mem_append_right body List.mem_cons_self) hnot
      · exact absurd hw hq.not_inWord
  | @unmatched q body hq hbody =>
      rcases h'.first with ⟨hb, _⟩ | ⟨_, _, ho, _⟩ | ⟨_, hstring⟩ | ⟨hw, _⟩
      · exact absurd hb hq.not_blank
      · exact absurd hq (operator_not_quote ho)
      · rcases hstring with ⟨body', rest, ts', _, rfl, _⟩ | ⟨_, rfl, rfl⟩
        · exact absurd (List.mem_append_right body' List.mem_cons_self) hbody
        · exact ⟨rfl, rfl⟩
      · exact absurd hw hq.not_inWord
  | @word w l ts e hne hw hl h ih =>
      have hstop : ∀ c ∈ l.head?, ¬InWord c := fun c hc => Stops.not_inWord (hl c hc)
      rcases Scans.word_inv hne hw h' with ⟨w', rest, hw', heq, hend⟩
      rcases hend with ⟨ts', hl', rfl, h'⟩ | ⟨d, hd, happ, rfl, rfl⟩
      · rcases longest_unique heq hw hw' hstop
          (fun c hc => Stops.not_inWord (hl' c hc)) with ⟨rfl, rfl⟩
        rcases ih h' with ⟨rfl, rfl⟩
        exact ⟨rfl, rfl⟩
      · have hrest : ∀ c ∈ rest.head?, ¬InWord c := fun c hc =>
          Option.mem_unique hd hc ▸ happ.not_inWord
        rcases longest_unique heq hw hw' hstop hrest with ⟨rfl, rfl⟩
        exact absurd happ (Stops.not_appends (hl d hd))
  | @appended w l c hne hw hc =>
      have hstop : ∀ d ∈ (c :: l).head?, ¬InWord d := fun d hd => by
        cases hd
        exact hc.not_inWord
      rcases Scans.word_inv hne hw h' with ⟨w', rest, hw', heq, hend⟩
      rcases hend with ⟨ts', hl', _, _⟩ | ⟨d, hd, happ, rfl, rfl⟩
      · rcases longest_unique heq hw hw' hstop
          (fun c hc => Stops.not_inWord (hl' c hc)) with ⟨rfl, rfl⟩
        exact absurd hc (Stops.not_appends (hl' c rfl))
      · exact ⟨rfl, rfl⟩

/-!
## The analyzer
-/

theorem lineText_not_end (line : List Char) : ∀ c ∈ lineText line, ¬IsEnd c := by
  intro c hc
  have hpos := List.mem_takeWhile_imp hc
  exact of_decide_eq_true hpos

/-- The loop finds the tokens of a line. -/
theorem lexan_scans (h : Scans (lineText line) ts e) :
    lexan line =
      if FitsLine 0 ts.length (lineText line) e then some (Lex.empty.add ts) else none := by
  have hl := lineText_not_end line
  have hrest : IsEnd ((line.dropWhile fun c => ¬IsEnd c).headD NULLCH) := by
    cases hp : line.dropWhile fun c => ¬IsEnd c with
    | nil => exact Or.inl rfl
    | cons c p =>
        have hstop := List.head?_dropWhile_not (fun c => decide ¬IsEnd c) line
        rw [hp] at hstop
        exact Classical.not_not.mp (of_decide_eq_false hstop)
  have hline : lineText line ++ line.dropWhile (fun c => ¬IsEnd c) = line :=
    List.takeWhile_append_dropWhile
  have hloop := lexLoop_scans (L := Lex.empty) h hl hrest (Nat.zero_le _)
  rw [hline] at hloop
  exact hloop

/-- A line without errors is made of the tokens that are found. -/
theorem scans_of_lexan {L : Lex} (h : lexan line = some L) :
    ∃ ts e, Scans (lineText line) ts e ∧ L = Lex.empty.add ts := by
  rcases exists_scans (lineText line) (lineText_not_end line) with ⟨ts, e, hscans⟩
  rw [lexan_scans hscans] at h
  split at h
  · exact ⟨ts, e, hscans, (Option.some.inj h).symm⟩
  · cases h

/-- A full line with a blank at its end is refused, without an error in it. -/
theorem Crowded.not_lexes (hcrowd : Crowded line) : ¬Lexes line (lexan line) := by
  rintro ⟨ts, e, h, hr⟩
  rcases hcrowd with ⟨ts', h', hlen, hblank⟩
  rcases h.unique h' with ⟨rfl, rfl⟩
  have hno : ¬FitsLine 0 ts.length (lineText line) .complete :=
    fun hfits => hfits.2.2 ⟨by omega, hblank⟩
  rw [lexan_scans h, if_neg hno] at hr
  rcases hr with hne | hlt
  · exact hne rfl
  · omega

/-- The analyzer agrees with the grammar on every line but those that are full and end in a
blank. -/
theorem lexan_iff (line : List Char) : Lexes line (lexan line) ↔ ¬Crowded line := by
  constructor
  · exact fun h hcrowd => hcrowd.not_lexes h
  · intro hcrowd
    rcases exists_scans (lineText line) (lineText_not_end line) with ⟨ts, e, h⟩
    refine ⟨ts, e, h, ?_⟩
    rw [lexan_scans h]
    by_cases hfits : FitsLine 0 ts.length (lineText line) e
    · have hnull : ∀ t ∈ ts, NULLCH ∉ t.text := fun t ht hmem =>
        lineText_not_end line NULLCH (h.mem_line t ht NULLCH hmem) (Or.inl rfl)
      have hntok : (Lex.empty.add ts).ntok = ts.length :=
        (Lex.ntok_add Lex.empty ts).trans (Nat.zero_add _)
      rw [if_pos hfits]
      exact ⟨hfits.1, by have := hfits.2.1; omega, hntok, Lex.empty_ok.tokens_add hnull⟩
    · rw [if_neg hfits]
      by_cases he : e = .complete
      · subst he
        refine Or.inr (Nat.lt_of_not_le fun hle => hfits ⟨rfl, by omega, ?_⟩)
        rintro ⟨hfull, hblank⟩
        exact hcrowd ⟨ts, h, by omega, hblank⟩
      · exact Or.inl he

/-- A line of single-letter words, each with a blank behind it. -/
def letters (n : Nat) : List Char := (List.replicate n ['a', SH_BLANK]).flatten

theorem letters_scans (n : Nat) :
    Scans (letters n) (List.replicate n ⟨.other, ['a']⟩) .complete := by
  induction n with
  | zero => exact .nil
  | succ n ih =>
      have hstop : Stops (SH_BLANK :: letters n) := fun c hc => by
        cases hc
        exact Or.inl (Or.inl rfl)
      exact Scans.word (w := ['a']) (List.cons_ne_nil 'a' [])
        (fun c hc => by rw [List.mem_singleton.mp hc]; decide) hstop (.blank (Or.inl rfl) ih)

theorem letters_endsBlank (n : Nat) : EndsBlank (letters (n + 1)) := by
  have hlast : letters (n + 1) = letters n ++ ['a'] ++ [SH_BLANK] := by
    unfold letters
    rw [List.replicate_succ', List.flatten_append, List.append_assoc]
    rfl
  refine ⟨SH_BLANK, ?_, Or.inl rfl⟩
  rw [hlast]
  exact List.getLast?_concat

/-- Thirty-two words and a blank are refused. -/
theorem lexan_refuses_blank : ¬Lexes (letters SHELL_MAXTOK) (lexan (letters SHELL_MAXTOK)) := by
  have htext : lineText (letters SHELL_MAXTOK) = letters SHELL_MAXTOK := by decide +kernel
  apply Crowded.not_lexes
  refine ⟨List.replicate SHELL_MAXTOK ⟨.other, ['a']⟩, ?_, List.length_replicate, ?_⟩
  · rw [htext]
    exact letters_scans SHELL_MAXTOK
  · rw [htext]
    exact letters_endsBlank 31

end

end BbbXinu
