import Mathlib.Data.Option.Basic

/-!
# Programs with scheduling points

A program works on a shared memory.  Statements that nothing can come between
form one act.  At a scheduling point, which may have to wait until the memory
allows it, other programs may run before and after; {lit}`run` takes a program
from start to end without interruption.

{lit}`Sure` is the calculus for both: what a program guarantees of each of its
changes, and of its result, whatever the others do within what it relies on.

Nothing here depends on a particular program.
-/

namespace BbbXinu

inductive Prog (σ α : Type) where
  /-- The program has returned. -/
  | ret (a : α)
  /-- A change of the memory, and what follows it. -/
  | act (upd : σ → σ) (next : σ → Prog σ α)
  /-- A scheduling point: once the memory allows it, a change. -/
  | sync (ready : σ → Bool) (upd : σ → σ) (next : σ → Prog σ α)
  /-- The system has stopped. -/
  | halt

namespace Prog

variable {σ γ δ α β : Type}

def bind : Prog σ α → (α → Prog σ β) → Prog σ β
  | .ret a, f => f a
  | .act u n, f => .act u fun s => bind (n s) f
  | .sync g u n, f => .sync g u fun s => bind (n s) f
  | .halt, _ => .halt

instance : Monad (Prog σ) where
  pure := Prog.ret
  bind := Prog.bind

/-- The memory as it is. -/
def get : Prog σ σ := .act id .ret

def modify (u : σ → σ) : Prog σ Unit := .act u fun _ => .ret ()

/-- Wait until the memory allows the change, make it, and return what the memory
was before it. -/
def await (ready : σ → Bool) (u : σ → σ) : Prog σ σ := .sync ready u .ret

def when (c : Bool) (p : Prog σ Unit) : Prog σ Unit := if c then p else .ret ()

/-- A loop over the values that its variable takes. -/
def forEach (body : β → Prog σ Unit) : List β → Prog σ Unit
  | [] => .ret ()
  | b :: l => (body b).bind fun _ => forEach body l

/-- A loop whose body says with what to go on, or what to return.  It stops the
system after the given number of rounds. -/
def loop (body : β → Prog σ (β ⊕ α)) : (fuel : Nat) → β → Prog σ α
  | 0, _ => .halt
  | n + 1, b => (body b).bind fun r =>
      match r with
      | .inl b' => loop body n b'
      | .inr a => .ret a

/-!
## Running without interruption
-/

def run : Prog σ α → σ → Option (σ × α)
  | .ret a, s => some (s, a)
  | .act u n, s => run (n s) (u s)
  | .sync g u n, s => if g s then run (n s) (u s) else none
  | .halt, _ => none

theorem run_get {f : σ → Prog σ α} {s : σ} : run (get >>= f) s = run (f s) s := rfl

/-!
## What a program is sure of
-/

/-- What a program may rely on and must guarantee.  A program goes through phases, which
its own changes of the memory mark.  In each phase the rules say what others may do to
the memory and what the program may do to it.  They also say whether the system may stop
and whether the program may have to wait. -/
structure Rules (σ γ : Type) where
  rely : γ → σ → σ → Prop
  guar : γ → σ → σ → Prop
  mark : γ → σ → σ → γ
  stops : Prop
  waits : Prop
  rely_refl : ∀ g s, rely g s s
  rely_trans : ∀ g s t u, rely g s t → rely g t u → rely g s u
  guar_refl : ∀ g s, guar g s s
  mark_refl : ∀ g s, mark g s s = g

/-- Whatever the others do, the program keeps to the rules, and its result has the given
property. -/
def Sure (r : Rules σ γ) (Q : α → γ → σ → Prop) : Prog σ α → γ → σ → Prop
  | .ret a, g, s => Q a g s
  | .act u n, g, s => r.guar g s (u s) ∧ Sure r Q (n s) (r.mark g s (u s)) (u s)
  | .sync c u n, g, s => ∀ s₁, r.rely g s s₁ →
      (c s₁ = false → r.waits) ∧
      (c s₁ = true → r.guar g s₁ (u s₁) ∧
        ∀ s₂, r.rely (r.mark g s₁ (u s₁)) (u s₁) s₂ →
          Sure r Q (n s₁) (r.mark g s₁ (u s₁)) s₂)
  | .halt, _, _ => r.stops

section Rules

variable {r : Rules σ γ} {P Q : α → γ → σ → Prop} {g : γ} {s : σ}

theorem Sure.bind {p : Prog σ α} {f : α → Prog σ β} {Q : β → γ → σ → Prop}
    (h : Sure r P p g s) (hf : ∀ a g s, P a g s → Sure r Q (f a) g s) :
    Sure r Q (p >>= f) g s := by
  change Sure r Q (Prog.bind p f) g s
  induction p generalizing g s with
  | ret a => exact hf a g s h
  | act u n ih => exact ⟨h.1, ih s h.2⟩
  | sync c u n ih =>
      intro s₁ hs₁
      refine ⟨(h s₁ hs₁).1, ?_⟩
      intro hc
      refine ⟨((h s₁ hs₁).2 hc).1, ?_⟩
      intro s₂ hs₂
      exact ih s₁ (((h s₁ hs₁).2 hc).2 s₂ hs₂)
  | halt => exact h

theorem sure_get {f : σ → Prog σ α} : Sure r Q (get >>= f) g s ↔ Sure r Q (f s) g s := by
  have hmark : r.mark g s (id s) = g := r.mark_refl g s
  change r.guar g s (id s) ∧ Sure r Q (f s) (r.mark g s (id s)) (id s) ↔ _
  rw [hmark]
  constructor
  · intro h
    exact h.2
  · intro h
    exact ⟨r.guar_refl g s, h⟩

theorem sure_modify {u : σ → σ} {f : Unit → Prog σ α} :
    Sure r Q (modify u >>= f) g s ↔
      r.guar g s (u s) ∧ Sure r Q (f ()) (r.mark g s (u s)) (u s) := Iff.rfl

theorem sure_await {c : σ → Bool} {u : σ → σ} {f : σ → Prog σ α} :
    Sure r Q (await c u >>= f) g s ↔ ∀ s₁, r.rely g s s₁ →
      (c s₁ = false → r.waits) ∧
      (c s₁ = true → r.guar g s₁ (u s₁) ∧
        ∀ s₂, r.rely (r.mark g s₁ (u s₁)) (u s₁) s₂ →
          Sure r Q (f s₁) (r.mark g s₁ (u s₁)) s₂) := Iff.rfl

theorem sure_when {c : Bool} {p : Prog σ Unit} {f : Unit → Prog σ α}
    (htrue : c = true → Sure r Q (p >>= f) g s) (hfalse : c = false → Sure r Q (f ()) g s) :
    Sure r Q (when c p >>= f) g s := by
  cases c with
  | true => exact htrue rfl
  | false => exact hfalse rfl

theorem bind_assoc_eq {p : Prog σ β} {f : β → Prog σ δ} {k : δ → Prog σ α} :
    (p >>= f) >>= k = p >>= fun b => f b >>= k := by
  change Prog.bind (Prog.bind p f) k = Prog.bind p fun b => Prog.bind (f b) k
  induction p with
  | ret b => rfl
  | act u n ih => exact congrArg (Prog.act u) (funext ih)
  | sync c u n ih => exact congrArg (Prog.sync c u) (funext ih)
  | halt => rfl

theorem bind_pure_eq (p : Prog σ α) : p >>= pure = p := by
  change Prog.bind p Prog.ret = p
  induction p with
  | ret a => rfl
  | act u n ih => exact congrArg (Prog.act u) (funext ih)
  | sync c u n ih => exact congrArg (Prog.sync c u) (funext ih)
  | halt => rfl

/-- A loop over a list, with an invariant about what is left of it. -/
theorem Sure.forEach {body : β → Prog σ Unit} {I : List β → γ → σ → Prop} {l : List β}
    (h : I l g s)
    (hbody : ∀ b l g s, I (b :: l) g s → Sure r (fun _ g s => I l g s) (body b) g s) :
    Sure r (fun _ g s => I [] g s) (Prog.forEach body l) g s := by
  induction l generalizing g s with
  | nil => exact h
  | cons b l ih =>
      change Sure r _ (body b >>= fun _ => Prog.forEach body l) g s
      refine Sure.bind (hbody b l g s h) ?_
      intro _ g' t ht
      exact ih ht

/-- A loop with an invariant and a bound on the rounds that are left. -/
theorem Sure.loop {body : β → Prog σ (β ⊕ α)} {I : Nat → β → γ → σ → Prop} {n k : Nat} {b : β}
    (hk : k < n) (h : I k b g s)
    (hbody : ∀ k b g s, I k b g s →
      Sure r (fun x g s => match x with
        | .inl b' => ∃ j, j < k ∧ I j b' g s
        | .inr a => Q a g s) (body b) g s) :
    Sure r Q (Prog.loop body n b) g s := by
  induction n generalizing k b g s with
  | zero => exact absurd hk (Nat.not_lt_zero k)
  | succ n ih =>
      change Sure r Q (body b >>= fun x => _) g s
      refine Sure.bind (hbody k b g s h) ?_
      intro x g' t hx
      match x, hx with
      | .inl b', hx =>
          rcases hx with ⟨j, hj, hI⟩
          exact ih (by omega) hI
      | .inr a, hx => exact hx

end Rules

/-!
## What it means for runs
-/

section Runs

variable {r : Rules σ γ} {Q : α → γ → σ → Prop} {g : γ} {s s' : σ}

/-- Run from start to end, a program that need not wait gives a result, unless the system
stops. -/
theorem Sure.returns {p : Prog σ α} (h : Sure r Q p g s) (hwaits : ¬r.waits) :
    r.stops ∨ ∃ s' a, run p s = some (s', a) := by
  induction p generalizing g s with
  | ret a => exact Or.inr ⟨s, a, rfl⟩
  | act u n ih => exact ih s h.2
  | sync c u n ih =>
      have hs := h s (r.rely_refl g s)
      cases hc : c s with
      | false => exact absurd (hs.1 hc) hwaits
      | true =>
          rw [Prog.run, if_pos hc]
          exact ih s ((hs.2 hc).2 (u s) (r.rely_refl _ _))
  | halt => exact Or.inl h

/-- What a program is sure of holds of the result of a run without interruption, and what
it guarantees of each change holds of the whole run when it adds up. -/
theorem Sure.of_run {p : Prog σ α} (h : Sure r Q p g s) {a : α}
    (hrun : Prog.run p s = some (s', a)) {G : σ → σ → Prop} (hG : ∀ g s t, r.guar g s t → G s t)
    (hrefl : ∀ s, G s s) (htrans : ∀ s t u, G s t → G t u → G s u) :
    (∃ g', Q a g' s') ∧ G s s' := by
  induction p generalizing g s with
  | ret b =>
      cases hrun
      exact ⟨⟨g, h⟩, hrefl _⟩
  | act u n ih =>
      have hrest := ih s h.2 hrun
      exact ⟨hrest.1, htrans _ _ _ (hG _ _ _ h.1) hrest.2⟩
  | sync c u n ih =>
      cases hc : c s with
      | false => simp [Prog.run, hc] at hrun
      | true =>
          have hs := (h s (r.rely_refl g s)).2 hc
          rw [Prog.run, if_pos hc] at hrun
          have hrest := ih s (hs.2 (u s) (r.rely_refl _ _)) hrun
          exact ⟨hrest.1, htrans _ _ _ (hG _ _ _ hs.1) hrest.2⟩
  | halt => simp [Prog.run] at hrun

end Runs

/-!
## Running in two parts
-/

theorem run_bind (p : Prog σ α) (f : α → Prog σ β) (s : σ) :
    run (p >>= f) s = (run p s).bind fun t => run (f t.2) t.1 := by
  change run (Prog.bind p f) s = _
  induction p generalizing s with
  | ret a => rfl
  | act u n ih => exact ih s (u s)
  | sync c u n ih =>
      by_cases hc : c s = true
      · simp only [Prog.bind, run, if_pos hc]
        exact ih s (u s)
      · simp only [Prog.bind, run, if_neg hc]
        rfl
  | halt => rfl

end Prog
end BbbXinu
