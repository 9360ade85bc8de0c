import Mathlib.Logic.Function.Iterate
import BbbXinu.Lib.Rings
import BbbXinu.Tty.Output

/-!
# What a terminal writes

{lit}`ttyhandle_out` takes the units that are missing from the semaphore for characters
in the buffer.  A unit is also missing for each writer that waits, and for each that was
released and has not stored its character.
-/

namespace BbbXinu
namespace Tty
namespace TtyOut

open Rings (Ring)

/-- The number of characters that wait in the buffer. -/
def stored (t : TtyOut) : Nat := t.deposited.length - t.sent.length

/-- An output interrupt finds no more room than there are characters, once it has treated
the echo queue, or no writer is between its wait and its character. -/
def Fine (t : TtyOut) : TtyOutLabel → Prop
  | .interrupt txfifoLvl => t.tyoheld = false →
      (echoLoop (UART_FIFO_SIZE - txfifoLvl) t).1 ≤ t.stored ∨ t.tyosem.inside = []
  | _ => True

instance (t : TtyOut) (label : TtyOutLabel) : Decidable (t.Fine label) :=
  match label with
  | .interrupt _ => inferInstanceAs (Decidable (_ = _ → _ ≤ _ ∨ _ = _))
  | .putc _ _ | .resume _ | .echo _ | .modes _ _ => inferInstanceAs (Decidable True)

/-- What a process has stored, in order. -/
def storedBy (pid : Int) (deposited : List (Int × UInt8)) : List UInt8 :=
  (deposited.filter fun d => d.1 = pid).map Prod.snd

/-- The buffer holds some characters, and every process has stored what it was asked to
write but for what is pending. -/
structure Chars (t : TtyOut) (pending : Int → List UInt8) (l : List UInt8) : Prop where
  ring : Ring TY_OBUFLEN t.tyobuff t.tyohead t.tyotail l
  order : t.deposited.map Prod.snd = t.sent ++ l
  each : ∀ pid, t.asked pid = storedBy pid t.deposited ++ pending pid

/-- Every place in the buffer is taken, or its unit was given and not used. -/
structure Sound (t : TtyOut) (pending : Int → List UInt8) (l : List UInt8) : Prop where
  chars : t.Chars pending l
  units : t.tyosem.units + l.length = TY_OBUFLEN

section

variable {t t' : TtyOut} {pending : Int → List UInt8} {l chars : List UInt8} {pid : Int}
  {ch : UInt8}

/-!
## Writers
-/

theorem storedBy_append (q : Int) (deposited : List (Int × UInt8)) :
    storedBy q (deposited ++ [(pid, ch)]) =
      storedBy q deposited ++ if pid = q then [ch] else [] := by
  unfold storedBy
  rw [List.filter_append, List.map_append]
  by_cases h : pid = q
  · simp [h]
  · simp [h]

/-- A writer that has got its unit stores its next character. -/
theorem Sound.store {T : Turnstile Int} (h : t.Sound (upd pending pid (ch :: chars)) l)
    (hT : T.units + 1 = t.tyosem.units) :
    ((t.setSem T).store pid ch).Sound (upd pending pid chars) (l ++ [ch]) := by
  have hunits := h.units
  have hnonneg := T.units_nonneg
  refine ⟨⟨h.chars.ring.push (by omega), ?_, fun q => ?_⟩, ?_⟩
  · change (t.deposited ++ [(pid, ch)]).map Prod.snd = _
    rw [List.map_append, h.chars.order, List.append_assoc]
    rfl
  · have hq := h.chars.each q
    change t.asked q = storedBy q (t.deposited ++ [(pid, ch)]) ++ _
    rw [hq, storedBy_append]
    by_cases heq : q = pid
    · rw [heq, upd_self, upd_self, if_pos rfl, List.append_assoc]
      rfl
    · rw [upd_of_ne heq, upd_of_ne heq, if_neg (fun h => heq h.symm), List.append_nil]
  · change T.units + _ = _
    rw [List.length_append, List.length_singleton]
    omega

/-- A writer goes on until it has stored everything or has to wait. -/
theorem Sound.putChars (h : t.Sound (upd t.pending pid chars) l) :
    ∃ l', (putChars pid chars t).Sound (putChars pid chars t).pending l' := by
  induction chars generalizing t l with
  | nil => exact ⟨l, ⟨h.chars.ring, h.chars.order, h.chars.each⟩, h.units⟩
  | cons ch chars ih =>
      by_cases hopen : t.tyosem.Open
      · have hstep : TtyOut.putChars pid (ch :: chars) t =
            TtyOut.putChars pid chars ((t.setSem (t.tyosem.enter pid)).store pid ch) :=
          if_pos hopen
        rw [hstep]
        exact ih (h.store (by rw [Turnstile.units_enter_open hopen]; omega))
      · have hstep : TtyOut.putChars pid (ch :: chars) t =
            (t.setSem (t.tyosem.enter pid)).setPending pid (ch :: chars) := if_neg hopen
        rw [hstep]
        refine ⟨l, ⟨h.chars.ring, h.chars.order, h.chars.each⟩, ?_⟩
        change (t.tyosem.enter pid).units + _ = _
        rw [Turnstile.units_enter_closed hopen]
        exact h.units

theorem Sound.ttyputc (h : t.Sound t.pending l) (hidle : t.pending pid = []) :
    ∃ l', (t.ttyputc pid ch).Sound (t.ttyputc pid ch).pending l' := by
  refine Sound.putChars (l := l) ⟨⟨h.chars.ring, h.chars.order, fun q => ?_⟩, h.units⟩
  have hq := h.chars.each q
  change upd t.asked pid (t.asked pid ++ t.crlf ch) q =
    storedBy q t.deposited ++ upd t.pending pid (t.crlf ch) q
  by_cases heq : q = pid
  · rw [heq] at hq
    rw [heq, upd_self, upd_self, hq, hidle, List.append_nil]
  · rw [upd_of_ne heq, upd_of_ne heq, hq]

theorem Sound.ttyputcResume (h : t.Sound t.pending l) (hmem : pid ∈ t.tyosem.granted) :
    ∃ l', (t.ttyputcResume pid (t.pending pid)).Sound
      (t.ttyputcResume pid (t.pending pid)).pending l' := by
  cases hp : t.pending pid with
  | nil => exact ⟨l, h⟩
  | cons ch chars =>
      rw [← upd_eq_self hp] at h
      exact Sound.putChars (h.store (by rw [Turnstile.units_resume hmem]; omega))

/-!
## Interrupts
-/

/-- The loop over the echo queue touches nothing else. -/
theorem echoLoop_eq (uspace : Nat) (t : TtyOut) :
    ∃ tyehead, (echoLoop uspace t).2 = { t with tyehead := tyehead } := by
  induction uspace generalizing t with
  | zero => exact ⟨t.tyehead, rfl⟩
  | succ uspace ih =>
      by_cases h : t.tyehead = t.tyetail
      · exact ⟨t.tyehead, congrArg Prod.snd (if_pos h)⟩
      · obtain ⟨tyehead, heq⟩ := ih
          { t with tyehead := if TY_EBUFLEN ≤ t.tyehead + 1 then 0 else t.tyehead + 1 }
        exact ⟨tyehead, (congrArg Prod.snd (if_neg h)).trans heq⟩

/-- The loop over the output buffer sends as many characters as there is room for, and as
it takes to be there. -/
theorem outLoop_eq (uspace : Nat) (avail : Int) (t : TtyOut) :
    outLoop uspace avail t =
      (min uspace avail.toNat, transmit^[min uspace avail.toNat] t) := by
  induction uspace generalizing avail t with
  | zero => rw [Nat.zero_min]; rfl
  | succ uspace ih =>
      by_cases h : 0 < avail
      · have hmin : min (uspace + 1) avail.toNat = min uspace (avail - 1).toNat + 1 := by omega
        have hstep : outLoop (uspace + 1) avail t =
            ((outLoop uspace (avail - 1) t.transmit).1 + 1,
              (outLoop uspace (avail - 1) t.transmit).2) := if_pos h
        rw [hstep, ih, hmin]
        rfl
      · have hmin : min (uspace + 1) avail.toNat = 0 := by omega
        rw [hmin]
        exact if_neg h

/-- What is sent are the first characters of the buffer. -/
theorem Chars.transmit {k : Nat} (h : t.Chars pending l) (hk : k ≤ l.length) :
    (TtyOut.transmit^[k] t).Chars pending (l.drop k) ∧
      (TtyOut.transmit^[k] t).tyosem = t.tyosem ∧
      (TtyOut.transmit^[k] t).pending = t.pending := by
  induction k generalizing t l with
  | zero => exact ⟨h, rfl, rfl⟩
  | succ k ih =>
      cases l with
      | nil => exact absurd hk (by simp)
      | cons c l =>
          have hstep : t.transmit.Chars pending l := by
            refine ⟨h.ring.pop, ?_, h.each⟩
            change t.deposited.map Prod.snd = t.sent ++ [t.tyobuff t.tyohead] ++ l
            rw [h.order, h.ring.first, List.append_assoc]
            rfl
          exact ih hstep (by simpa using hk)

theorem Sound.stored (h : t.Sound pending l) : t.stored = l.length := by
  have hlen := congrArg List.length h.chars.order
  rw [List.length_map, List.length_append] at hlen
  unfold TtyOut.stored
  omega

/-- An interrupt sends characters that are there. -/
theorem Sound.ttyhandleOut {txfifoLvl : Nat} (h : t.Sound t.pending l)
    (hfine : t.Fine (.interrupt txfifoLvl)) :
    ∃ l', (t.ttyhandleOut txfifoLvl).Sound (t.ttyhandleOut txfifoLvl).pending l' := by
  unfold TtyOut.ttyhandleOut
  by_cases hheld : t.tyoheld = true
  · rw [if_pos hheld]
    exact ⟨l, h⟩
  · rw [if_neg hheld]
    have hroom := hfine (Bool.eq_false_iff.mpr hheld)
    split
    · exact ⟨l, h⟩
    · obtain ⟨tyehead, hecho⟩ := echoLoop_eq (UART_FIFO_SIZE - txfifoLvl) t
      rw [h.stored] at hroom
      cases hloop : echoLoop (UART_FIFO_SIZE - txfifoLvl) t with
      | mk uspace t₁ =>
          rw [hloop] at hecho hroom
          cases hecho
          have hunits := h.units
          have hle : min uspace (TY_OBUFLEN - t.tyosem.queue.count : Int).toNat ≤ l.length := by
            cases hroom with
            | inl hroom => exact Nat.min_le_left _ _ |>.trans hroom
            | inr hnone =>
                unfold Turnstile.units at hunits
                rw [hnone, List.length_nil] at hunits
                omega
          obtain ⟨hsent, hsem, hpending⟩ := Chars.transmit (t := { t with tyehead := tyehead })
            ⟨h.chars.ring, h.chars.order, h.chars.each⟩ hle
          dsimp only
          rw [outLoop_eq]
          generalize min uspace (TY_OBUFLEN - t.tyosem.queue.count : Int).toNat = k at *
          dsimp only
          rw [hsem]
          refine ⟨l.drop k, ?_⟩
          by_cases hk : 0 < k
          · rw [if_pos hk]
            change Sound _ (TtyOut.transmit^[k] { t with tyehead := tyehead }).pending _
            rw [hpending]
            refine ⟨⟨hsent.ring, hsent.order, hsent.each⟩, ?_⟩
            change (t.tyosem.signal k).units + _ = _
            rw [Turnstile.units_signal, List.length_drop]
            omega
          · rw [if_neg hk, hpending]
            refine ⟨hsent, ?_⟩
            rw [hsem, List.length_drop]
            change t.tyosem.units + _ = _
            omega

end

/-!
## Runs
-/

theorem Sound.step {t t' : TtyOut} {l : List UInt8} {label : TtyOutLabel}
    (h : t.Sound t.pending l) (hfine : t.Fine label) (hs : t.step label = some t') :
    ∃ l', t'.Sound t'.pending l' := by
  cases label with
  | putc pid ch =>
      obtain ⟨hidle, hs⟩ := Option.ite_none_right_eq_some.mp hs
      cases hs
      exact h.ttyputc hidle
  | resume pid =>
      obtain ⟨hmem, hs⟩ := Option.ite_none_right_eq_some.mp hs
      cases hs
      exact h.ttyputcResume hmem
  | interrupt txfifoLvl =>
      cases hs
      exact h.ttyhandleOut hfine
  | echo ch =>
      cases hs
      exact ⟨l, ⟨h.chars.ring, h.chars.order, h.chars.each⟩, h.units⟩
  | modes tyocrlf tyoheld =>
      cases hs
      exact ⟨l, ⟨h.chars.ring, h.chars.order, h.chars.each⟩, h.units⟩

/-- In every run in which no interrupt finds more room than characters while a writer is
between its wait and its character, the UART gets what was stored, each character once
and in order; every process stores what it was asked to write; and at most
{lit}`TY_OBUFLEN` characters wait. -/
theorem terminal_output_in_order {t : TtyOut} (h : Runs.Reach step Fine Init t) :
    ∃ l, Ring TY_OBUFLEN t.tyobuff t.tyohead t.tyotail l ∧ l.length ≤ TY_OBUFLEN ∧
      t.deposited.map Prod.snd = t.sent ++ l ∧
      ∀ pid, t.asked pid = storedBy pid t.deposited ++ t.pending pid := by
  have hsound : ∃ l, t.Sound t.pending l := by
    refine h.invariant (I := fun t => ∃ l, t.Sound t.pending l) ?_
      fun t label t' _ hI hfine hs => ?_
    · intro _ hinit
      rw [hinit]
      exact ⟨[], ⟨Ring.nil (by decide), rfl, fun _ => rfl⟩, rfl⟩
    · obtain ⟨l, hl⟩ := hI
      exact hl.step hfine hs
  obtain ⟨l, hl⟩ := hsound
  exact ⟨l, hl.chars.ring, hl.chars.ring.length_le, hl.chars.order, hl.chars.each⟩

/-- Two characters and a newline are written, and all are sent. -/
theorem terminal_output_in_order_line : ∃ t : TtyOut, t.sent = [65, 66, TY_RETURN, TY_NEWLINE] ∧
    ∃ l, t.deposited.map Prod.snd = t.sent ++ l := by
  obtain ⟨t, ht, hsent⟩ := Runs.exists_reach_of_follow step Fine (show Init init from rfl)
    [.putc 1 65, .putc 2 66, .putc 1 TY_NEWLINE, .interrupt 0]
    (fun t => t.sent = [65, 66, TY_RETURN, TY_NEWLINE]) (by decide +kernel)
  obtain ⟨l, _, _, horder, _⟩ := terminal_output_in_order ht
  exact ⟨t, hsent, l, horder⟩

/-- A writer is released and has not run when the next interrupt comes: a character is sent
that was sent before. -/
theorem terminal_output_stale : ∃ t, Runs.Reach step (fun _ _ => True) Init t ∧
    t.deposited.length = 64 ∧ t.sent.length = 65 :=
  Runs.exists_reach_of_follow step (fun _ _ => True) (show Init init from rfl)
    ((List.range 65).map (fun i => .putc 1 (UInt8.ofNat (48 + i))) ++
      [.interrupt 0, .interrupt 0]) _ (by decide +kernel)

end TtyOut
end Tty
end BbbXinu
