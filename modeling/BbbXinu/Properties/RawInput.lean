import BbbXinu.Properties.TerminalInput

/-!
# What a terminal reads without line editing

The buffer has the characters that were stored and not read, and the semaphore a unit for
each of them, as long as nothing is stored in cbreak mode, which does not signal, nothing
is stored in the last place in raw mode, which does not move the tail back to the start,
and nothing is stored in a full buffer.
-/

namespace BbbXinu
namespace Tty

namespace TtyRaw

/-- The character that goes into the buffer if there is room. -/
def meant (m : Modes) (t : TtyRaw) (ch : UInt8) : Option UInt8 :=
  if ch = TY_CTRLC ∨ ch = TY_BELL then none
  else
    match t.tyimode with
    | .raw => some ch
    | .cbreak =>
        if m.tyoflow ∧ (TtyIn.mapped m ch = m.tyostart ∨ TtyIn.mapped m ch = m.tyostop) then none
        else some (TtyIn.mapped m ch)

/-- The test for room fails. -/
def Full (t : TtyRaw) : Prop := (TY_IBUFLEN : Int) ≤ t.input.avail

instance (t : TtyRaw) : Decidable t.Full := inferInstanceAs (Decidable (_ ≤ _))

/-- What the code relies on without a test. -/
def Fine (m : Modes) (t : TtyRaw) : TtyRawLabel → Prop
  | .type ch =>
      t.meant m ch = none ∨ t.Full ∨
        t.tyimode = .raw ∧ t.input.tyitail + 1 < TY_IBUFLEN ∧ t.input.tyisem.units < TY_IBUFLEN
  | .getc _ | .resume _ | .control _ => True

instance (m : Modes) (t : TtyRaw) (label : TtyRawLabel) : Decidable (t.Fine m label) :=
  match label with
  | .type _ => inferInstanceAs (Decidable (_ = _ ∨ _ ∨ _ = _ ∧ _ < _ ∧ _ < _))
  | .getc _ | .resume _ | .control _ => inferInstanceAs (Decidable True)

/-- The buffer has what was stored and not read, in order, with a unit for each, and was
full whenever a character was refused. -/
structure Sound (t : TtyRaw) (stored : List UInt8) : Prop where
  buffer : t.input.Buffer stored
  units : t.input.tyisem.units = stored.length
  accepted : t.accepted = t.input.got ++ stored
  refused : ∀ n ∈ t.refused, (TY_IBUFLEN : Int) ≤ n

/-- Input begins, with what the buffer holds. -/
def Init (t : TtyRaw) : Prop := t.input.got = [] ∧ t.refused = [] ∧ ∃ stored, t.Sound stored

/-!
## What a character does
-/

/-- What {lit}`ttyhandle_in` does. -/
inductive Typed (m : Modes) (t : TtyRaw) (ch : UInt8) (t' : TtyRaw) : Prop where
  | command :
      t.meant m ch = none → t'.input = t.input → t'.accepted = t.accepted →
      t'.refused = t.refused → Typed m t ch t'
  | refused :
      t.Full → t'.input = t.input → t'.accepted = t.accepted →
      t'.refused = t.refused ++ [t.input.tyisem.units] → Typed m t ch t'
  | raw (c : UInt8) :
      t.meant m ch = some c → ¬t.Full → t.tyimode = .raw →
      t'.input = (t.input.store c).signal 1 → t'.accepted = t.accepted ++ [c] →
      t'.refused = t.refused → Typed m t ch t'
  | cbreak (c : UInt8) :
      t.meant m ch = some c → ¬t.Full → t.tyimode = .cbreak →
      t'.input = (t.input.store c).wrap → t'.accepted = t.accepted ++ [c] →
      t'.refused = t.refused → Typed m t ch t'

section Steps

variable {m : Modes} {t t' : TtyRaw} {stored stored' : List UInt8} {ch c : UInt8} {pid : Int}

theorem typed_raw (hmode : t.tyimode = .raw) (hmeant : t.meant m ch = some ch) :
    Typed m t ch (t.rawIn ch) := by
  unfold rawIn
  by_cases hfull : t.Full
  · rw [if_pos (show (TY_IBUFLEN : Int) ≤ _ from hfull)]
    exact .refused hfull rfl rfl rfl
  · rw [if_neg (show ¬(TY_IBUFLEN : Int) ≤ _ from hfull)]
    exact .raw ch hmeant hfull hmode rfl rfl rfl

theorem typed_cbreak (hmode : t.tyimode = .cbreak) (hmeant : t.meant m ch = some c) :
    Typed m t ch ({ t with tyoheld := false }.cbreakIn c) := by
  unfold cbreakIn
  by_cases hfull : t.Full
  · rw [if_pos (show (TY_IBUFLEN : Int) ≤ _ from hfull)]
    exact .refused hfull rfl rfl rfl
  · rw [if_neg (show ¬(TY_IBUFLEN : Int) ≤ _ from hfull)]
    exact .cbreak c hmeant hfull hmode rfl rfl rfl

theorem typed (m : Modes) (t : TtyRaw) (ch : UInt8) : Typed m t ch (t.ttyhandleIn m ch) := by
  unfold ttyhandleIn
  by_cases hcommand : ch = TY_CTRLC ∨ ch = TY_BELL
  · have hnone : t.meant m ch = none := if_pos hcommand
    split
    · exact .command hnone rfl rfl rfl
    · rw [if_pos (hcommand.resolve_left ‹_›)]
      exact .command hnone rfl rfl rfl
  · rw [if_neg fun h => hcommand (.inl h), if_neg fun h => hcommand (.inr h)]
    cases hmode : t.tyimode with
    | raw =>
        have hsome : t.meant m ch = some ch := by
          unfold meant
          rw [if_neg hcommand, hmode]
        exact typed_raw hmode hsome
    | cbreak =>
        have hmeant : t.meant m ch =
            if m.tyoflow ∧ (TtyIn.mapped m ch = m.tyostart ∨ TtyIn.mapped m ch = m.tyostop)
            then none else some (TtyIn.mapped m ch) := by
          unfold meant
          rw [if_neg hcommand, hmode]
        dsimp only
        split
        · rename_i hstart
          exact .command (hmeant.trans (if_pos ⟨hstart.1, .inl hstart.2⟩)) rfl rfl rfl
        · rename_i hstart
          split
          · rename_i hstop
            exact .command (hmeant.trans (if_pos ⟨hstop.1, .inr hstop.2⟩)) rfl rfl rfl
          · rename_i hstop
            rw [← hmode]
            refine typed_cbreak hmode (hmeant.trans (if_neg ?_))
            rintro ⟨hflow, hch | hch⟩
            · exact hstart ⟨hflow, hch⟩
            · exact hstop ⟨hflow, hch⟩

/-- A full buffer has at least as many units. -/
theorem Full.le_units (h : t.Full) : (TY_IBUFLEN : Int) ≤ t.input.tyisem.units := by
  have hle := t.input.tyisem.count_le_units
  have htest : (TY_IBUFLEN : Int) ≤ t.input.avail := h
  unfold TtyIn.avail at htest
  split at htest
  · exact absurd htest (by decide)
  · omega

/-- What is neither stored nor taken. -/
theorem Sound.of_eq (h : t.Sound stored) (hinput : t'.input = t.input)
    (haccepted : t'.accepted = t.accepted)
    (hrefused : ∀ n ∈ t'.refused, (TY_IBUFLEN : Int) ≤ n) : t'.Sound stored where
  buffer := hinput ▸ h.buffer
  units := hinput ▸ h.units
  accepted := by
    rw [haccepted, hinput]
    exact h.accepted
  refused := hrefused

/-- In raw mode a character is stored rightly in any place but the last. -/
theorem Sound.raw (h : t.Sound stored) (htail : t.input.tyitail + 1 < TY_IBUFLEN)
    (hroom : t.input.tyisem.units < TY_IBUFLEN) (hinput : t'.input = (t.input.store c).signal 1)
    (haccepted : t'.accepted = t.accepted ++ [c]) (hrefused : t'.refused = t.refused) :
    t'.Sound (stored ++ [c]) where
  buffer := by
    have hunits := h.units
    have hbuffer : (t.input.store c).wrap.Buffer (stored ++ [c]) := h.buffer.store (by omega)
    rw [TtyIn.wrap_store htail] at hbuffer
    rw [hinput]
    exact hbuffer
  units := by
    rw [hinput]
    change (t.input.tyisem.signal 1).units = _
    rw [Turnstile.units_signal, h.units, List.length_append, List.length_singleton]
    rfl
  accepted := by
    rw [haccepted, hinput, h.accepted, List.append_assoc]
    rfl
  refused := hrefused ▸ h.refused

/-- A reader that has its unit takes the first character. -/
theorem Sound.take {T : Turnstile Int} (h : t.Sound stored)
    (hT : T.units + 1 = t.input.tyisem.units) :
    ∃ u, ({ t with input := { t.input with tyisem := T }.take } : TtyRaw).Sound u := by
  have hunits := h.units
  have hnonneg := T.units_nonneg
  cases stored with
  | nil =>
      rw [List.length_nil] at hunits
      omega
  | cons c u =>
      obtain ⟨hbuffer, hgot⟩ := TtyIn.Buffer.take (t := { t.input with tyisem := T }) h.buffer
      refine ⟨u, hbuffer, ?_, ?_, h.refused⟩
      · change T.units = _
        rw [List.length_cons] at hunits
        omega
      · change t.accepted = TtyIn.got _ ++ u
        rw [hgot, h.accepted, List.append_assoc]
        rfl

theorem Sound.getc (h : t.Sound stored) (pid : Int) :
    ∃ u, ({ t with input := t.input.ttygetc pid } : TtyRaw).Sound u := by
  unfold TtyIn.ttygetc
  by_cases hopen : t.input.tyisem.Open
  · rw [if_pos hopen]
    exact h.take (by rw [Turnstile.units_enter_open hopen]; omega)
  · rw [if_neg hopen]
    refine ⟨stored, h.buffer, ?_, h.accepted, h.refused⟩
    change (t.input.tyisem.enter pid).units = _
    rw [Turnstile.units_enter_closed hopen]
    exact h.units

theorem Sound.type (h : t.Sound stored) (hfine : t.Fine m (.type ch)) :
    ∃ u, (t.ttyhandleIn m ch).Sound u := by
  cases typed m t ch with
  | command _ hinput haccepted hrefused =>
      exact ⟨stored, h.of_eq hinput haccepted (hrefused ▸ h.refused)⟩
  | refused hfull hinput haccepted hrefused =>
      refine ⟨stored, h.of_eq hinput haccepted fun n hn => ?_⟩
      rw [hrefused] at hn
      cases List.mem_append.mp hn with
      | inl hold => exact h.refused n hold
      | inr hnew => exact List.mem_singleton.mp hnew ▸ hfull.le_units
  | raw c hmeant hfull _ hinput haccepted hrefused =>
      obtain hnone | hfull' | ⟨-, htail, hroom⟩ := hfine
      · exact absurd (hnone.symm.trans hmeant) nofun
      · exact absurd hfull' hfull
      · exact ⟨_, h.raw htail hroom hinput haccepted hrefused⟩
  | cbreak c hmeant hfull hmode _ _ _ =>
      obtain hnone | hfull' | ⟨hraw, -⟩ := hfine
      · exact absurd (hnone.symm.trans hmeant) nofun
      · exact absurd hfull' hfull
      · exact absurd (hmode.symm.trans hraw) nofun

/-- What the code relies on is needed for each character. -/
theorem Sound.fine (h : t.Sound stored) (h' : (t.ttyhandleIn m ch).Sound stored') :
    t.Fine m (.type ch) := by
  cases typed m t ch with
  | command hnone _ _ _ => exact .inl hnone
  | refused hfull _ _ _ => exact .inr (.inl hfull)
  | raw c hmeant hfull hmode hinput haccepted hrefused =>
      have hstored : stored' = stored ++ [c] := by
        have heq := h'.accepted
        rw [haccepted, hinput, h.accepted, List.append_assoc] at heq
        exact (List.append_cancel_left heq).symm
      have hlen : stored'.length = stored.length + 1 := by
        rw [hstored, List.length_append, List.length_singleton]
      have hunits := h.units
      obtain ⟨head, tail, -, htail, hring⟩ := h'.buffer
      have hle := hring.length_le
      have hlt : tail < TY_IBUFLEN := hring.tail_lt
      rw [hinput] at htail
      change t.input.tyitail + 1 = _ at htail
      exact .inr (.inr ⟨hmode, by omega, by omega⟩)
  | cbreak c hmeant hfull hmode hinput haccepted hrefused =>
      obtain ⟨tail, hwrap⟩ := TtyIn.wrap_eq (t.input.store c)
      rw [hwrap] at hinput
      have hunits := h'.units
      have haccepted' := congrArg List.length h'.accepted
      rw [haccepted, hinput, h.accepted] at haccepted'
      simp only [List.length_append, List.length_singleton] at haccepted'
      change _ = t.input.got.length + _ at haccepted'
      rw [hinput] at hunits
      change t.input.tyisem.units = _ at hunits
      rw [h.units] at hunits
      omega

theorem Sound.step {label : TtyRawLabel} (h : t.Sound stored) (hfine : t.Fine m label)
    (hs : t.step m label = some t') : ∃ u, t'.Sound u := by
  cases label with
  | type ch =>
      cases hs
      exact h.type hfine
  | getc pid =>
      obtain ⟨-, hs⟩ := Option.ite_none_left_eq_some.mp hs
      cases hs
      exact h.getc pid
  | resume pid =>
      obtain ⟨hmem, hs⟩ := Option.ite_none_right_eq_some.mp hs
      cases hs
      exact h.take (by rw [Turnstile.units_resume hmem]; omega)
  | control mode =>
      cases hs
      exact ⟨stored, h.of_eq rfl rfl h.refused⟩

end Steps

/-!
## Runs
-/

/-- In every run in which nothing is stored in cbreak mode, and in raw mode neither in the
last place nor in a full buffer, readers get what was stored in order; the rest of it is
in the buffer, with the pointers inside it; the semaphore counts what is there for no
reader that was released; a character is refused only when the buffer is full.  One
more character keeps all of this only as the condition says. -/
theorem raw_input_kept (m : Modes) {t : TtyRaw}
    (h : Runs.Reach (step m) (Fine m) Init t) :
    ∃ stored, t.accepted = t.input.got ++ stored ∧ t.input.Buffer stored ∧
      (0 ≤ t.input.tyisem.queue.count →
        t.input.tyisem.queue.count + t.input.tyisem.granted.length = stored.length) ∧
      (∀ n ∈ t.refused, (TY_IBUFLEN : Int) ≤ n) ∧
      ((0 ≤ t.input.tyihead ∧ t.input.tyihead < TY_IBUFLEN) ∧
        0 ≤ t.input.tyitail ∧ t.input.tyitail < TY_IBUFLEN) ∧
      ∀ ch, (∃ stored', (t.ttyhandleIn m ch).Sound stored') ↔ t.Fine m (.type ch) := by
  have hsound : ∃ stored, t.Sound stored := by
    refine h.invariant (I := fun t => ∃ stored, t.Sound stored) (fun _ hinit => hinit.2.2)
      fun t label t' _ hI hfine hs => ?_
    obtain ⟨stored, hstored⟩ := hI
    exact hstored.step hfine hs
  obtain ⟨stored, hstored⟩ := hsound
  obtain ⟨head, tail, hhead, htail, hring⟩ := hstored.buffer
  have hheadlt := hring.head_lt
  have htaillt := hring.tail_lt
  refine ⟨stored, hstored.accepted, hstored.buffer, fun hcount => ?_, hstored.refused, ?_,
    fun ch => ⟨fun ⟨_, h'⟩ => hstored.fine h', hstored.type⟩⟩
  · have hnil := t.input.tyisem.queue.nil_of_nonneg hcount
    rw [← hstored.units]
    unfold Turnstile.units Turnstile.inside
    rw [hnil, List.nil_append]
  · omega

/-- The terminal in raw or cbreak mode, with nothing typed yet. -/
def start (mode : Imode) : TtyRaw where
  tyimode := mode
  tyoheld := false
  tyotail := 0
  input := TtyIn.init
  accepted := []
  refused := []

theorem init_start (mode : Imode) : Init (start mode) :=
  ⟨rfl, rfl, [], ⟨0, 0, rfl, rfl, Rings.Ring.nil (by decide)⟩, rfl, rfl, nofun⟩

/-- Two characters are typed in raw mode while a reader waits. -/
theorem raw_input_kept_waiting :
    ∃ t : TtyRaw, t.accepted = [97, 13] ∧ t.input.got = [97] ∧
      ∃ stored, t.accepted = t.input.got ++ stored ∧
        t.input.tyisem.queue.count + t.input.tyisem.granted.length = stored.length := by
  obtain ⟨t, ht, haccepted, hgot, hcount⟩ := Runs.exists_reach_of_follow (step ttyinitModes)
    (Fine ttyinitModes) (init_start .raw)
    [.getc 1, .type 97, .type 13, .resume 1]
    (fun t => t.accepted = [97, 13] ∧ t.input.got = [97] ∧ 0 ≤ t.input.tyisem.queue.count)
    (by decide +kernel)
  obtain ⟨stored, hstored, _, hunits, _⟩ := raw_input_kept ttyinitModes ht
  exact ⟨t, haccepted, hgot, stored, hstored, hunits hcount⟩

/-- In cbreak mode a character is stored that the semaphore does not count, so a reader
waits for it in vain; in raw mode the tail leaves the buffer. -/
theorem raw_input_lost :
    (∃ t, Runs.Reach (step ttyinitModes) (fun _ _ => True) Init t ∧ t.accepted = [97] ∧
      t.input.got = [] ∧ t.input.tyisem.queue.waiters = [1] ∧ t.input.tyisem.granted = []) ∧
    (∃ t, Runs.Reach (step ttyinitModes) (fun _ _ => True) Init t ∧ t.accepted = [97] ∧
      t.input.got = [] ∧ t.input.tyisem.queue.count = 0 ∧ t.input.tyisem.granted = []) ∧
    ∃ t, Runs.Reach (step ttyinitModes) (fun _ _ => True) Init t ∧
      (TY_IBUFLEN : Int) ≤ t.input.tyitail := by
  refine ⟨?_, ?_, ?_⟩
  · exact Runs.exists_reach_of_follow (step ttyinitModes) (fun _ _ => True)
      (init_start .cbreak) [.getc 1, .type 97] _ (by decide +kernel)
  · exact Runs.exists_reach_of_follow (step ttyinitModes) (fun _ _ => True)
      (init_start .cbreak) [.type 97] _ (by decide +kernel)
  · exact Runs.exists_reach_of_follow (step ttyinitModes) (fun _ _ => True)
      (init_start .raw) (List.replicate 100 (.type 97) ++ List.replicate 50 (.getc 1) ++
        List.replicate 28 (.type 97)) _ (by decide +kernel)

end TtyRaw

end Tty
end BbbXinu
