import Mathlib.Data.Option.Basic

/-!
# Interrupt masks

One bit of the status register of a processor disables interrupts.  A routine that must not be
interrupted sets the bit, having saved the register, and restores what it has saved before it
returns.  When it does so wherever it returns, its caller does not notice, whatever has
become of the register in between.

Nothing here depends on a particular program.
-/

namespace BbbXinu
namespace Masks

/-- The bit that disables interrupts, and the bits that are not taken from a saved register
when it is restored. -/
structure Controls (w : Nat) where
  irq : Nat
  own : BitVec w
  irq_lt : irq < w
  irq_restored : own.getLsbD irq = false

/-- A processor: its status register, and everything else. -/
structure Cpu (w : Nat) (σ : Type) where
  status : BitVec w
  rest : σ

/-- A routine, which may also not return. -/
abbrev Routine (w : Nat) (σ α : Type) : Type := StateT (Cpu w σ) Option α

section

variable {w : Nat} {σ α β : Type} {C : Controls w} {mask : BitVec w} {b : Bool} {s : Cpu w σ}
  {m : Routine w σ α} {f : α → Routine w σ β}

/-- Interrupts are disabled. -/
def Cpu.masked (C : Controls w) (s : Cpu w σ) : Bool := s.status.getLsbD C.irq

def Cpu.disable (C : Controls w) (s : Cpu w σ) : Cpu w σ :=
  { s with status := s.status ||| BitVec.twoPow w C.irq }

def Cpu.restore (C : Controls w) (mask : BitVec w) (s : Cpu w σ) : Cpu w σ :=
  { s with status := (s.status &&& C.own) ||| (mask &&& ~~~C.own) }

/-- The register is saved and interrupts are disabled. -/
def disable (C : Controls w) : Routine w σ (BitVec w) := fun s => some (s.status, s.disable C)

def restore (C : Controls w) (mask : BitVec w) : Routine w σ Unit :=
  fun s => some ((), s.restore C mask)

/-- What is not in the register. -/
def rest : Routine w σ σ := fun s => some (s.rest, s)

def setRest (r : σ) : Routine w σ Unit := fun s => some ((), { s with rest := r })

/-- A routine that restores the register wherever it returns. -/
def critical (C : Controls w) (body : Routine w σ α) : Routine w σ α := do
  let mask ← disable C
  let a ← body
  restore C mask
  return a

/-- The system stops. -/
def halt : Routine w σ α := fun _ => none

@[simp] theorem masked_disable (s : Cpu w σ) : (s.disable C).masked C = true := by
  unfold Cpu.masked Cpu.disable
  rw [BitVec.getLsbD_or, BitVec.getLsbD_twoPow]
  simp [C.irq_lt]

@[simp] theorem rest_disable (s : Cpu w σ) : (s.disable C).rest = s.rest := rfl

/-- Of the register before a restore nothing is left in the bit. -/
@[simp] theorem masked_restore (s : Cpu w σ) :
    (s.restore C mask).masked C = mask.getLsbD C.irq := by
  unfold Cpu.masked Cpu.restore
  rw [BitVec.getLsbD_or, BitVec.getLsbD_and, BitVec.getLsbD_and, BitVec.getLsbD_not,
    C.irq_restored]
  simp [C.irq_lt]

/-!
## What a routine leaves
-/

/-- If the routine returns, interrupts are disabled or not, as given. -/
def Leaves (C : Controls w) (m : Routine w σ α) (s : Cpu w σ) (b : Bool) : Prop :=
  ∀ a t, m s = some (a, t) → t.masked C = b

/-- The routine returns with the mask with which it was called. -/
def Keeps (C : Controls w) (m : Routine w σ α) : Prop := ∀ s, Leaves C m s (s.masked C)

theorem bind_eq_some {b : β} {u : Cpu w σ} (h : (m >>= f) s = some (b, u)) :
    ∃ a t, m s = some (a, t) ∧ f a t = some (b, u) := by
  change ((m s).bind fun r => f r.1 r.2) = some (b, u) at h
  rcases Option.bind_eq_some_iff.mp h with ⟨⟨a, t⟩, hm, hf⟩
  exact ⟨a, t, hm, hf⟩

theorem Leaves.bind (h : ∀ a t, m s = some (a, t) → Leaves C (f a) t b) :
    Leaves C (m >>= f) s b := by
  intro b' u hu
  rcases bind_eq_some hu with ⟨a, t, hm, hf⟩
  exact h a t hm b' u hf

theorem Leaves.pure (a : α) (h : s.masked C = b) : Leaves C (Pure.pure a) s b := by
  intro a' t ht
  cases ht
  exact h

theorem Keeps.pure (a : α) : Keeps C (Pure.pure a : Routine w σ α) := fun _ => Leaves.pure a rfl

theorem Keeps.bind (hm : Keeps C m) (hf : ∀ a, Keeps C (f a)) : Keeps C (m >>= f) := by
  intro s
  refine Leaves.bind fun a t ht => ?_
  rw [← hm s a t ht]
  exact hf a t

theorem Keeps.leaves (h : Keeps C m) (hs : s.masked C = b) : Leaves C m s b := by
  rw [← hs]
  exact h s

/-- A saved register is restored. -/
theorem leaves_restore (b : β) :
    Leaves C (restore C mask >>= fun _ => Pure.pure b) s (mask.getLsbD C.irq) :=
  Leaves.bind fun _ _ ht => by
    cases ht
    exact Leaves.pure b (masked_restore s)

/-- The end of a routine that restores a saved register, whatever it has done before. -/
theorem leaves_returning (m : Routine w σ α) (g : α → β) :
    Leaves C (m >>= fun a => restore C mask >>= fun _ => Pure.pure (g a)) s
      (mask.getLsbD C.irq) :=
  Leaves.bind fun a _ _ => leaves_restore (g a)

/-- After interrupts have been disabled, and with the register of the caller. -/
theorem leaves_disabling {k : BitVec w → Routine w σ α}
    (h : Leaves C (k s.status) (s.disable C) b) : Leaves C (disable C >>= k) s b :=
  Leaves.bind fun _ _ ht => by
    cases ht
    exact h

/-- What a critical routine does to the register is undone. -/
theorem keeps_critical (body : Routine w σ α) : Keeps C (critical C body) :=
  fun _ => leaves_disabling (leaves_returning body id)

end

end Masks
end BbbXinu
