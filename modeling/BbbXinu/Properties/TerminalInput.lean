import BbbXinu.Lib.Rings
import BbbXinu.Tty.Input

/-!
# What a terminal reads

The line discipline says what the lines are that were typed.  The buffer has the lines
that were not read yet, followed by the unfinished one, as long as no line kill has to
move the tail past the start of the buffer, no end of file is stored in the last place,
and nothing is stored in a full buffer.
-/

namespace BbbXinu
namespace Tty

open Rings (Ring)

/-!
## The line discipline
-/

/-- What a character means. -/
inductive Kind where
  | command | kill | erase | newline | eof | ordinary
  deriving DecidableEq, Repr

/-- What a character means behind the commands. -/
def cookedKind (m : Modes) (ch : UInt8) : Kind :=
  if ch = m.tyikillc ∧ m.tyikill then .kill
  else if ch = m.tyierasec ∧ m.tyierase then .erase
  else if ch = TY_NEWLINE ∨ ch = TY_RETURN then .newline
  else if ch = m.tyeofch ∧ m.tyeof then .eof
  else .ordinary

def kind (m : Modes) (ch : UInt8) : Kind :=
  if ch = TY_CTRLC then .command
  else if ch = TY_BELL then .command
  else if m.tyoflow ∧ TtyIn.mapped m ch = m.tyostart then .command
  else if m.tyoflow ∧ TtyIn.mapped m ch = m.tyostop then .command
  else cookedKind m (TtyIn.mapped m ch)

/-- The text of the finished lines, and the unfinished line. -/
structure Edited where
  done : List UInt8
  line : List UInt8

/-- An erase takes the last character of the line, a line kill all of it; a newline
finishes the line; an end of file counts at the start of a line only. -/
def Edited.type (m : Modes) (e : Edited) (k : Keystroke) : Edited :=
  match kind m k.ch with
  | .command => e
  | .kill => { e with line := [] }
  | .erase => { e with line := e.line.dropLast }
  | .newline => { done := e.done ++ e.line ++ [TtyIn.mapped m k.ch], line := [] }
  | .eof =>
      if k.accepted ∧ e.line = [] then { e with done := e.done ++ [TtyIn.mapped m k.ch] } else e
  | .ordinary => if k.accepted then { e with line := e.line ++ [TtyIn.mapped m k.ch] } else e

/-- What was typed. -/
def edited (m : Modes) (typed : List Keystroke) : Edited :=
  typed.foldl (Edited.type m) { done := [], line := [] }

/-- A character was refused only when all places but one were taken. -/
def Keystroke.Accounted (k : Keystroke) : Prop :=
  k.accepted = false → (TY_IBUFLEN : Int) - 1 ≤ k.held

theorem edited_append {m : Modes} {typed : List Keystroke} {k : Keystroke} :
    edited m (typed ++ [k]) = (edited m typed).type m k := by
  unfold edited
  rw [List.foldl_append]
  rfl

namespace TtyIn

/-- What the code relies on without a test. -/
def Fine (m : Modes) (t : TtyIn) : TtyInLabel → Prop
  | .type ch =>
      (kind m ch = .kill → (t.tyicursor : Int) ≤ t.tyitail) ∧
      (kind m ch = .newline → t.held < TY_IBUFLEN) ∧
      (kind m ch = .ordinary → t.noRoom = false → t.held < TY_IBUFLEN) ∧
      (kind m ch = .eof → t.noRoom = false → t.tyicursor = 0 →
        t.held < TY_IBUFLEN ∧ t.tyitail + 1 < TY_IBUFLEN)
  | .getc _ | .resume _ => True

instance (m : Modes) (t : TtyIn) (label : TtyInLabel) : Decidable (t.Fine m label) :=
  match label with
  | .type _ => inferInstanceAs (Decidable ((_ = _ → _ ≤ _) ∧ (_ = _ → _ < _) ∧
      (_ = _ → _ = _ → _ < _) ∧ (_ = _ → _ = _ → _ = _ → _ < _ ∧ _ < _)))
  | .getc _ | .resume _ => inferInstanceAs (Decidable True)

/-!
## The buffer
-/

/-- The pointers are inside the buffer, and between them there are some characters. -/
def Buffer (t : TtyIn) (l : List UInt8) : Prop :=
  ∃ head tail : Nat, t.tyihead = head ∧ t.tyitail = tail ∧
    Ring TY_IBUFLEN (fun i : Nat => t.tyibuff i) head tail l

section Buffer

variable {t : TtyIn} {l l' : List UInt8} {ch : UInt8}

theorem upd_natCast {buf : Int → UInt8} {tail : Nat} :
    (fun i : Nat => upd buf (tail : Int) ch i) = upd (fun i : Nat => buf i) tail ch := by
  funext i
  by_cases h : i = tail
  · rw [h, upd_self, upd_self]
  · rw [upd_of_ne h, upd_of_ne (by omega)]

theorem Buffer.store (h : t.Buffer l) (hroom : l.length < TY_IBUFLEN) :
    (t.store ch).wrap.Buffer (l ++ [ch]) := by
  obtain ⟨head, tail, hhead, htail, hring⟩ := h
  have hpush : Ring TY_IBUFLEN (upd (fun i : Nat => t.tyibuff i) tail ch) head
      (Rings.next TY_IBUFLEN tail) (l ++ [ch]) := hring.push hroom
  unfold wrap
  split
  · rename_i hwrap
    have hle : TY_IBUFLEN ≤ tail + 1 := by
      change (TY_IBUFLEN : Int) ≤ t.tyitail + 1 at hwrap
      omega
    rw [show Rings.next TY_IBUFLEN tail = 0 from if_pos hle] at hpush
    refine ⟨head, 0, hhead, rfl, ?_⟩
    change Ring _ (fun i : Nat => upd t.tyibuff t.tyitail ch i) _ _ _
    rw [htail, upd_natCast]
    exact hpush
  · rename_i hwrap
    have hle : ¬TY_IBUFLEN ≤ tail + 1 := by
      change ¬(TY_IBUFLEN : Int) ≤ t.tyitail + 1 at hwrap
      omega
    rw [show Rings.next TY_IBUFLEN tail = tail + 1 from if_neg hle] at hpush
    refine ⟨head, tail + 1, hhead, ?_, ?_⟩
    · change t.tyitail + 1 = _
      omega
    · change Ring _ (fun i : Nat => upd t.tyibuff t.tyitail ch i) _ _ _
      rw [htail, upd_natCast]
      exact hpush

/-- Where the pointer does not have to wrap, it need not be tested. -/
theorem wrap_store (h : t.tyitail + 1 < TY_IBUFLEN) : (t.store ch).wrap = t.store ch :=
  if_neg (by change ¬(TY_IBUFLEN : Int) ≤ t.tyitail + 1; omega)

theorem Buffer.erase1 (h : t.Buffer (l ++ [ch])) : t.erase1.Buffer l := by
  obtain ⟨head, tail, hhead, htail, hring⟩ := h
  have hdrop := hring.dropLast
  unfold TtyIn.erase1
  dsimp only
  split
  · rename_i hneg
    refine ⟨head, TY_IBUFLEN - 1, hhead, ?_, ?_⟩
    · change t.tyitail - 1 + TY_IBUFLEN = _
      unfold TY_IBUFLEN
      omega
    · rwa [show Rings.prev TY_IBUFLEN tail = TY_IBUFLEN - 1 from if_pos (by omega)] at hdrop
  · rename_i hneg
    refine ⟨head, tail - 1, hhead, ?_, ?_⟩
    · change t.tyitail - 1 = _
      omega
    · rwa [show Rings.prev TY_IBUFLEN tail = tail - 1 from if_neg (by omega)] at hdrop

theorem Buffer.killLine (h : t.Buffer (l ++ l')) (hcursor : t.tyicursor = l'.length)
    (htail : (t.tyicursor : Int) ≤ t.tyitail) : t.killLine.Buffer l := by
  obtain ⟨head, tail, hhead, htail', hring⟩ := h
  have hdrop : Ring TY_IBUFLEN (fun i : Nat => t.tyibuff i) head (tail - l'.length) l :=
    hring.dropRight (by omega)
  unfold TtyIn.killLine
  dsimp only
  rw [if_neg (by omega)]
  refine ⟨head, tail - l'.length, hhead, ?_, hdrop⟩
  change t.tyitail - t.tyicursor = _
  omega

theorem Buffer.take (h : t.Buffer (ch :: l)) :
    t.take.Buffer l ∧ t.take.got = t.got ++ [ch] := by
  obtain ⟨head, tail, hhead, htail, hring⟩ := h
  have hpop := hring.pop
  have hfirst : t.tyibuff t.tyihead = ch := by
    rw [hhead]
    exact hring.first
  refine ⟨⟨Rings.next TY_IBUFLEN head, tail, ?_, htail, hpop⟩, ?_⟩
  · change (if (TY_IBUFLEN : Int) ≤ t.tyihead + 1 then (0 : Int) else t.tyihead + 1) = _
    unfold Rings.next
    split
    · rw [if_pos (by omega)]
      rfl
    · rw [if_neg (by omega)]
      omega
  · change t.got ++ [t.tyibuff t.tyihead] = _
    rw [hfirst]

end Buffer

/-!
## What a keystroke does
-/

/-- What a character does that means something, or is stored. -/
def act (t : TtyIn) (ch : UInt8) : Kind → TtyIn
  | .command => t
  | .kill => t.killLine
  | .erase => if 0 < t.tyicursor then { t with tyicursor := t.tyicursor - 1 }.erase1 else t
  | .newline => { (t.store ch).wrap.signal (t.tyicursor + 1) with tyicursor := 0 }
  | .eof =>
      if t.noRoom then t else if t.tyicursor ≠ 0 then t else (t.store ch).signal 1
  | .ordinary =>
      if t.noRoom then t else ({ t with tyicursor := t.tyicursor + 1 }.store ch).wrap

theorem cookedIn_eq (m : Modes) (t : TtyIn) (ch : UInt8) :
    t.cookedIn m ch = t.act ch (cookedKind m ch) := by
  unfold cookedIn cookedKind
  by_cases hkill : ch = m.tyikillc ∧ m.tyikill
  · rw [if_pos hkill, if_pos hkill]
    rfl
  · rw [if_neg hkill, if_neg hkill]
    by_cases herase : ch = m.tyierasec ∧ m.tyierase
    · rw [if_pos herase, if_pos herase]
      rfl
    · rw [if_neg herase, if_neg herase]
      by_cases hnewline : ch = TY_NEWLINE ∨ ch = TY_RETURN
      · rw [if_pos hnewline, if_pos hnewline]
        rfl
      · rw [if_neg hnewline, if_neg hnewline]
        by_cases heof : ch = m.tyeofch ∧ m.tyeof
        · rw [if_pos heof, if_pos heof]
          rfl
        · rw [if_neg heof, if_neg heof]
          rfl

/-- {lit}`ttyhandle_in`, by what the character means. -/
theorem ttyhandleIn_eq (m : Modes) (t : TtyIn) (ch : UInt8) :
    t.ttyhandleIn m ch = t.act (mapped m ch) (kind m ch) := by
  unfold ttyhandleIn kind
  split
  · rfl
  · split
    · rfl
    · split
      · rfl
      · split
        · rfl
        · exact cookedIn_eq m t _

/-- The buffer has what was made available and not read, and then the unfinished line, and
both are what the line discipline says. -/
structure Sound (m : Modes) (t : TtyIn) (unread line : List UInt8) : Prop where
  buffer : t.Buffer (unread ++ line)
  units : t.tyisem.units = unread.length
  cursor : t.tyicursor = line.length
  done : (edited m t.typed).done = t.got ++ unread
  line_eq : (edited m t.typed).line = line
  refused : ∀ k ∈ t.typed, k.Accounted

/-- These three move pointers. -/
theorem wrap_eq (t : TtyIn) : ∃ tail, t.wrap = { t with tyitail := tail } := by
  unfold wrap
  split
  · exact ⟨0, rfl⟩
  · exact ⟨t.tyitail, rfl⟩

theorem erase1_eq (t : TtyIn) : ∃ tail, t.erase1 = { t with tyitail := tail } := by
  unfold erase1
  dsimp only
  split
  · exact ⟨_, rfl⟩
  · exact ⟨_, rfl⟩

theorem killLine_eq (t : TtyIn) :
    ∃ head tail, t.killLine = { t with tyihead := head, tyitail := tail, tyicursor := 0 } := by
  unfold killLine
  dsimp only
  split
  · exact ⟨_, _, rfl⟩
  · exact ⟨_, _, rfl⟩

section Steps

variable {m : Modes} {t t' : TtyIn} {unread line : List UInt8} {ch : UInt8} {pid : Int}
  {k : Keystroke}

theorem Sound.held_eq (h : t.Sound m unread line) : t.held = (unread ++ line).length := by
  unfold held
  rw [h.units, h.cursor, List.length_append]
  omega

/-- The test for room counts no more characters than there are. -/
theorem held_of_noRoom (hno : t.noRoom = true) : (TY_IBUFLEN : Int) - 1 ≤ t.held := by
  have hle := t.tyisem.count_le_units
  have hnonneg := t.tyisem.units_nonneg
  have htest : (TY_IBUFLEN : Int) - 1 ≤ t.avail + t.tyicursor := of_decide_eq_true hno
  unfold held
  unfold avail at htest
  split at htest
  · omega
  · omega

/-- The log of a keystroke, for any new state that is right. -/
theorem Sound.log {u l : List UInt8} (h : t.Sound m unread line)
    (htyped : t'.typed = t.typed) (hk : k.Accounted)
    (hbuffer : t'.Buffer (u ++ l)) (hunits : t'.tyisem.units = u.length)
    (hcursor : t'.tyicursor = l.length)
    (hdone : ((edited m t.typed).type m k).done = t'.got ++ u)
    (hline : ((edited m t.typed).type m k).line = l) : (t'.log k).Sound m u l where
  buffer := hbuffer
  units := hunits
  cursor := hcursor
  done := by
    change (edited m (t'.typed ++ [k])).done = _
    rw [htyped, edited_append]
    exact hdone
  line_eq := by
    change (edited m (t'.typed ++ [k])).line = _
    rw [htyped, edited_append]
    exact hline
  refused := by
    intro k' hk'
    change k' ∈ t'.typed ++ [k] at hk'
    rw [htyped] at hk'
    cases List.mem_append.mp hk' with
    | inl hold => exact h.refused k' hold
    | inr hnew =>
        rw [List.mem_singleton.mp hnew]
        exact hk

/-- A keystroke that changes neither the buffer nor the lines. -/
theorem Sound.unchanged (h : t.Sound m unread line) (hheld : k.Accounted)
    (hsame : (edited m t.typed).type m k = edited m t.typed) : (t.log k).Sound m unread line :=
  h.log rfl hheld h.buffer h.units h.cursor ((congrArg Edited.done hsame).trans h.done)
    ((congrArg Edited.line hsame).trans h.line_eq)

theorem Sound.kill (h : t.Sound m unread line) (hheld : k.Accounted)
    (hkind : kind m k.ch = .kill) (hcursor : (t.tyicursor : Int) ≤ t.tyitail) :
    (t.killLine.log k).Sound m unread [] := by
  obtain ⟨head, tail, hact⟩ := killLine_eq t
  have hbuffer : t.killLine.Buffer unread := Buffer.killLine h.buffer h.cursor hcursor
  have htype : (edited m t.typed).type m k = { edited m t.typed with line := [] } := by
    unfold Edited.type
    rw [hkind]
  rw [hact] at hbuffer ⊢
  refine h.log rfl hheld ?_ h.units rfl ?_ ?_
  · rw [List.append_nil]
    exact hbuffer
  · rw [htype]
    exact h.done
  · rw [htype]

theorem Sound.erase (h : t.Sound m unread line) (hheld : k.Accounted)
    (hkind : kind m k.ch = .erase) (hcursor : 0 < t.tyicursor) :
    ({ t with tyicursor := t.tyicursor - 1 }.erase1.log k).Sound m unread line.dropLast := by
  obtain ⟨tail, hact⟩ := erase1_eq { t with tyicursor := t.tyicursor - 1 }
  have hne : line ≠ [] := fun hnil => by
    rw [h.cursor, hnil] at hcursor
    exact absurd hcursor (by decide)
  have hlast : line.dropLast ++ [line.getLast hne] = line := List.dropLast_append_getLast hne
  have hwhole : ({ t with tyicursor := t.tyicursor - 1 } : TtyIn).Buffer
      (unread ++ line.dropLast ++ [line.getLast hne]) := by
    rw [List.append_assoc, hlast]
    exact h.buffer
  have hbuffer := hwhole.erase1
  have htype : (edited m t.typed).type m k =
      { edited m t.typed with line := (edited m t.typed).line.dropLast } := by
    unfold Edited.type
    rw [hkind]
  rw [hact] at hbuffer ⊢
  refine h.log rfl hheld hbuffer h.units ?_ ?_ ?_
  · change t.tyicursor - 1 = _
    rw [h.cursor, List.length_dropLast]
  · rw [htype]
    exact h.done
  · rw [htype]
    exact congrArg List.dropLast h.line_eq

theorem Sound.newline (h : t.Sound m unread line) (hheld : k.Accounted)
    (hkind : kind m k.ch = .newline) (hroom : t.held < TY_IBUFLEN) :
    ((t.act (mapped m k.ch) .newline).log k).Sound m
      (unread ++ line ++ [mapped m k.ch]) [] := by
  have hlen := h.held_eq
  obtain ⟨tail, hwrap⟩ := wrap_eq (t.store (mapped m k.ch))
  have hbuffer : (t.store (mapped m k.ch)).wrap.Buffer (unread ++ line ++ [mapped m k.ch]) :=
    h.buffer.store (by omega)
  have htype : (edited m t.typed).type m k =
      { done := (edited m t.typed).done ++ (edited m t.typed).line ++ [mapped m k.ch],
        line := [] } := by
    unfold Edited.type
    rw [hkind]
  rw [hwrap] at hbuffer
  rw [show t.act (mapped m k.ch) .newline = { (t.store (mapped m k.ch)).wrap.signal
    (t.tyicursor + 1) with tyicursor := 0 } from rfl, hwrap]
  refine h.log rfl hheld ?_ ?_ rfl ?_ ?_
  · rw [List.append_nil]
    exact hbuffer
  · change (t.tyisem.signal (t.tyicursor + 1)).units = _
    rw [Turnstile.units_signal, h.units, h.cursor, List.length_append, List.length_append,
      List.length_singleton]
    omega
  · rw [htype]
    change (edited m t.typed).done ++ (edited m t.typed).line ++ [mapped m k.ch] = _
    rw [h.done, h.line_eq, List.append_assoc, List.append_assoc, List.append_assoc]
    rfl
  · rw [htype]

/-- An end of file that is stored is a line of its own. -/
theorem Sound.eof (h : t.Sound m unread line) (hheld : k.Accounted)
    (hkind : kind m k.ch = .eof) (hacc : k.accepted = true) (hcursor : t.tyicursor = 0)
    (hroom : t.held < TY_IBUFLEN) (htail : t.tyitail + 1 < TY_IBUFLEN) :
    (((t.store (mapped m k.ch)).signal 1).log k).Sound m (unread ++ [mapped m k.ch]) [] := by
  have hlen := h.held_eq
  have hnil : line = [] := List.length_eq_zero_iff.mp (h.cursor.symm.trans hcursor)
  have hbuffer : (t.store (mapped m k.ch)).wrap.Buffer (unread ++ line ++ [mapped m k.ch]) :=
    h.buffer.store (by omega)
  have htype : (edited m t.typed).type m k =
      { edited m t.typed with done := (edited m t.typed).done ++ [mapped m k.ch] } := by
    unfold Edited.type
    rw [hkind]
    exact if_pos ⟨hacc, h.line_eq.trans hnil⟩
  rw [wrap_store htail, hnil, List.append_nil] at hbuffer
  refine h.log rfl hheld ?_ ?_ hcursor ?_ ?_
  · rw [List.append_nil]
    exact hbuffer
  · change (t.tyisem.signal 1).units = _
    rw [Turnstile.units_signal, h.units, List.length_append, List.length_singleton]
    rfl
  · rw [htype]
    change (edited m t.typed).done ++ [mapped m k.ch] = _
    rw [h.done, List.append_assoc]
    rfl
  · rw [htype]
    exact h.line_eq.trans hnil

theorem Sound.ordinary (h : t.Sound m unread line) (hheld : k.Accounted)
    (hkind : kind m k.ch = .ordinary) (hacc : k.accepted = true)
    (hroom : t.held < TY_IBUFLEN) :
    (({ t with tyicursor := t.tyicursor + 1 }.store (mapped m k.ch)).wrap.log k).Sound m unread
      (line ++ [mapped m k.ch]) := by
  have hlen := h.held_eq
  obtain ⟨tail, hwrap⟩ := wrap_eq ({ t with tyicursor := t.tyicursor + 1 }.store (mapped m k.ch))
  have hbuffer : ({ t with tyicursor := t.tyicursor + 1 }.store (mapped m k.ch)).wrap.Buffer
      (unread ++ line ++ [mapped m k.ch]) := Buffer.store h.buffer (by omega)
  have htype : (edited m t.typed).type m k =
      { edited m t.typed with line := (edited m t.typed).line ++ [mapped m k.ch] } := by
    unfold Edited.type
    rw [hkind]
    exact if_pos hacc
  rw [hwrap] at hbuffer ⊢
  refine h.log rfl hheld ?_ h.units ?_ ?_ ?_
  · rw [← List.append_assoc]
    exact hbuffer
  · change t.tyicursor + 1 = _
    rw [h.cursor, List.length_append, List.length_singleton]
  · rw [htype]
    exact h.done
  · rw [htype]
    exact congrArg (· ++ _) h.line_eq

/-- What is typed ends up in the lines. -/
theorem Sound.type (h : t.Sound m unread line) (hfine : t.Fine m (.type ch)) :
    ∃ u l, ((t.ttyhandleIn m ch).log ⟨ch, !t.noRoom, t.held⟩).Sound m u l := by
  obtain ⟨hkill, hnewline, hordinary, heof⟩ := hfine
  have hheld : Keystroke.Accounted ⟨ch, !t.noRoom, t.held⟩ := fun hno =>
    held_of_noRoom (by simpa using hno)
  rw [ttyhandleIn_eq]
  cases hkind : kind m ch with
  | command =>
      refine ⟨unread, line, h.unchanged hheld ?_⟩
      unfold Edited.type
      rw [hkind]
  | kill => exact ⟨unread, [], h.kill hheld hkind (hkill hkind)⟩
  | erase =>
      by_cases hcursor : 0 < t.tyicursor
      · rw [show t.act (mapped m ch) .erase = _ from if_pos hcursor]
        exact ⟨unread, line.dropLast, h.erase hheld hkind hcursor⟩
      · have hnil : line = [] := List.length_eq_zero_iff.mp (by have := h.cursor; omega)
        have hlast : (edited m t.typed).line.dropLast = (edited m t.typed).line := by
          rw [h.line_eq, hnil]
          rfl
        rw [show t.act (mapped m ch) .erase = t from if_neg hcursor]
        refine ⟨unread, line, h.unchanged hheld ?_⟩
        unfold Edited.type
        rw [hkind]
        dsimp only
        rw [hlast]
  | newline =>
      have hline := h.newline hheld hkind (hnewline hkind)
      exact ⟨_, [], hline⟩
  | eof =>
      by_cases hno : t.noRoom = true
      · rw [show t.act (mapped m ch) .eof = t from if_pos hno]
        refine ⟨unread, line, h.unchanged hheld ?_⟩
        unfold Edited.type
        rw [hkind]
        simp [hno]
      · have hfalse : t.noRoom = false := Bool.eq_false_iff.mpr hno
        by_cases hcursor : t.tyicursor = 0
        · obtain ⟨hroom, htail⟩ := heof hkind hfalse hcursor
          rw [show t.act (mapped m ch) .eof = (t.store (mapped m ch)).signal 1 from
            (if_neg hno).trans (if_neg (not_not.mpr hcursor))]
          exact ⟨_, [], h.eof hheld hkind (by rw [hfalse]; rfl) hcursor hroom htail⟩
        · have hne : (edited m t.typed).line ≠ [] := fun hnil => by
            rw [h.line_eq] at hnil
            exact hcursor (by rw [h.cursor, hnil]; rfl)
          rw [show t.act (mapped m ch) .eof = t from (if_neg hno).trans (if_pos hcursor)]
          refine ⟨unread, line, h.unchanged hheld ?_⟩
          unfold Edited.type
          rw [hkind]
          exact if_neg fun hnil => hne hnil.2
  | ordinary =>
      by_cases hno : t.noRoom = true
      · rw [show t.act (mapped m ch) .ordinary = t from if_pos hno]
        refine ⟨unread, line, h.unchanged hheld ?_⟩
        unfold Edited.type
        rw [hkind]
        simp [hno]
      · have hfalse : t.noRoom = false := Bool.eq_false_iff.mpr hno
        rw [show t.act (mapped m ch) .ordinary = _ from if_neg hno]
        exact ⟨unread, _, h.ordinary hheld hkind (by rw [hfalse]; rfl) (hordinary hkind hfalse)⟩

/-!
## What a reader does
-/

/-- A reader that has its unit takes the first character. -/
theorem Sound.take {T : Turnstile Int} (h : t.Sound m unread line)
    (hT : T.units + 1 = t.tyisem.units) :
    ∃ u, ({ t with tyisem := T } : TtyIn).take.Sound m u line := by
  have hunits := h.units
  have hnonneg := T.units_nonneg
  cases unread with
  | nil =>
      rw [List.length_nil] at hunits
      omega
  | cons c u =>
      obtain ⟨hbuffer, hgot⟩ := Buffer.take (t := { t with tyisem := T }) h.buffer
      refine ⟨u, hbuffer, ?_, h.cursor, ?_, h.line_eq, h.refused⟩
      · change T.units = _
        rw [List.length_cons] at hunits
        omega
      · rw [hgot]
        change (edited m t.typed).done = t.got ++ [c] ++ u
        rw [h.done, List.append_assoc]
        rfl

theorem Sound.step {label : TtyInLabel} (h : t.Sound m unread line) (hfine : t.Fine m label)
    (hs : t.step m label = some t') : ∃ u l, t'.Sound m u l := by
  cases label with
  | type ch =>
      cases hs
      exact h.type hfine
  | getc pid =>
      obtain ⟨-, hs⟩ := Option.ite_none_left_eq_some.mp hs
      cases hs
      unfold TtyIn.ttygetc
      by_cases hopen : t.tyisem.Open
      · rw [if_pos hopen]
        obtain ⟨u, hu⟩ := h.take (T := t.tyisem.enter pid)
          (by rw [Turnstile.units_enter_open hopen]; omega)
        exact ⟨u, line, hu⟩
      · rw [if_neg hopen]
        refine ⟨unread, line, h.buffer, ?_, h.cursor, h.done, h.line_eq, h.refused⟩
        change (t.tyisem.enter pid).units = _
        rw [Turnstile.units_enter_closed hopen]
        exact h.units
  | resume pid =>
      obtain ⟨hmem, hs⟩ := Option.ite_none_right_eq_some.mp hs
      cases hs
      obtain ⟨u, hu⟩ := h.take (T := t.tyisem.resume pid)
        (by rw [Turnstile.units_resume hmem]; omega)
      exact ⟨u, line, hu⟩

end Steps

/-!
## Runs
-/

/-- In every run in which no line kill moves the tail past the start of the buffer, no end of
file goes into the last place, and nothing goes into a full buffer, readers get the text
of the finished lines in order; the rest of it and the unfinished line are in the buffer,
with the pointers inside it, and a character is refused only when it is full but for one
place. -/
theorem terminal_reads_lines (m : Modes) {t : TtyIn}
    (h : Runs.Reach (step m) (Fine m) Init t) :
    ∃ unread, t.Buffer (unread ++ (edited m t.typed).line) ∧
      (edited m t.typed).done = t.got ++ unread ∧
      (unread ++ (edited m t.typed).line).length ≤ TY_IBUFLEN ∧
      ∀ k ∈ t.typed, k.accepted = false → (TY_IBUFLEN : Int) - 1 ≤ k.held := by
  have hsound : ∃ u l, t.Sound m u l := by
    refine h.invariant (I := fun t => ∃ u l, t.Sound m u l) ?_
      fun t label t' _ hI hfine hs => ?_
    · intro _ hinit
      rw [hinit]
      exact ⟨[], [], ⟨0, 0, rfl, rfl, Ring.nil (by decide)⟩, rfl, rfl, rfl, rfl, nofun⟩
    · obtain ⟨u, l, hl⟩ := hI
      exact hl.step hfine hs
  obtain ⟨u, l, hl⟩ := hsound
  have hbuffer := hl.buffer
  rw [← hl.line_eq] at hbuffer
  obtain ⟨head, tail, -, -, hring⟩ := hbuffer
  exact ⟨u, hl.line_eq ▸ hl.buffer, hl.done, hring.length_le, hl.refused⟩

/-- A line is typed with an erase in it, while a reader waits, and read. -/
theorem terminal_reads_lines_erase :
    ∃ t : TtyIn, t.got = [97, 99, TY_NEWLINE] ∧
      (edited ttyinitModes t.typed).done = t.got ++ [] := by
  obtain ⟨t, ht, hgot⟩ := Runs.exists_reach_of_follow (step ttyinitModes) (Fine ttyinitModes)
    (show Init init from rfl)
    [.getc 1, .type 97, .type 98, .type TY_BACKSP, .type 99, .type TY_RETURN, .resume 1,
      .getc 1, .getc 1]
    (fun t => t.got = [97, 99, TY_NEWLINE] ∧
      (edited ttyinitModes t.typed).done.length = 3) (by decide +kernel)
  obtain ⟨u, _, hdone, _⟩ := terminal_reads_lines ttyinitModes ht
  have hlen := congrArg List.length hdone
  rw [hgot.2, List.length_append, hgot.1] at hlen
  have hnil : u = [] := List.length_eq_zero_iff.mp (by simpa using hlen)
  exact ⟨t, hgot.1, by rw [hdone, hnil]⟩

/-- A line kill of a line that starts at the end of the buffer and goes on at its start. -/
theorem terminal_kill_wraps :
    ∃ t, Runs.Reach (step ttyinitModes) (fun _ _ => True) Init t ∧ t.tyitail < 0 ∧
      (TY_IBUFLEN : Int) ≤ t.tyihead :=
  Runs.exists_reach_of_follow (step ttyinitModes) (fun _ _ => True) (show Init init from rfl)
    (List.replicate 100 (.type 97) ++ [.type TY_NEWLINE] ++ List.replicate 101 (.getc 1) ++
      List.replicate 50 (.type 98) ++ [.type TY_KILLCH]) _ (by decide +kernel)

end TtyIn

end Tty
end BbbXinu
