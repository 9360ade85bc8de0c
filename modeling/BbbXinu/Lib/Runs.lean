import Mathlib.Data.Option.Basic

/-!
# Runs of a deterministic machine under an environment

A machine has states, labels and a partial step function.  An environment says
which labels may be taken in which state.  {lit}`Reach` is reachability by
allowed steps, and {lit}`follow` replays a given list of labels.

Nothing here depends on a particular program.
-/

namespace BbbXinu
namespace Runs

variable {σ ℓ : Type}

/-- States reachable from the initial states by steps that the environment
allows. -/
inductive Reach (step : σ → ℓ → Option σ) (env : σ → ℓ → Prop) (init : σ → Prop) :
    σ → Prop where
  | init {s : σ} : init s → Reach step env init s
  | step {s s' : σ} {l : ℓ} :
      Reach step env init s → env s l → step s l = some s' →
      Reach step env init s'

section

variable {step : σ → ℓ → Option σ} {env env' : σ → ℓ → Prop} {init : σ → Prop}
  {I : σ → Prop} {s s' : σ}

/-- What holds at the start and is kept by every allowed step holds in every
reachable state. -/
theorem Reach.invariant (h : Reach step env init s)
    (hinit : ∀ s, init s → I s)
    (hstep : ∀ s l s', Reach step env init s → I s → env s l →
      step s l = some s' → I s') :
    I s := by
  induction h with
  | init hs => exact hinit _ hs
  | step hr henv hs ih => exact hstep _ _ _ hr ih henv hs

/-- A more permissive environment reaches more states. -/
theorem Reach.mono (h : Reach step env init s)
    (henv : ∀ s l, env s l → env' s l) : Reach step env' init s := by
  induction h with
  | init hs => exact Reach.init hs
  | step _ he hs ih => exact Reach.step ih (henv _ _ he) hs

end

/-- The machine together with an observer that records something of each step. -/
def observed {ω : Type} (step : σ → ℓ → Option σ) (record : ω → σ → ℓ → σ → ω) :
    σ × ω → ℓ → Option (σ × ω) :=
  fun t l => (step t.1 l).map fun s' => (s', record t.2 t.1 l s')

theorem observed_eq {ω : Type} {step : σ → ℓ → Option σ} {record : ω → σ → ℓ → σ → ω}
    {t t' : σ × ω} {l : ℓ} (h : observed step record t l = some t') :
    step t.1 l = some t'.1 ∧ t'.2 = record t.2 t.1 l t'.1 := by
  rcases Option.map_eq_some_iff.mp h with ⟨s', hs, rfl⟩
  exact ⟨hs, rfl⟩

section Follow

variable (step : σ → ℓ → Option σ) (env : σ → ℓ → Prop) [∀ s l, Decidable (env s l)]

/-- Take the given labels one after the other, each allowed and enabled. -/
def follow : List ℓ → σ → Option σ
  | [], s => some s
  | l :: rest, s => if env s l then (step s l).bind (follow rest) else none

theorem reach_of_follow {init : σ → Prop} {labels : List ℓ} {s s' : σ}
    (hs : Reach step env init s) (h : follow step env labels s = some s') :
    Reach step env init s' := by
  induction labels generalizing s with
  | nil =>
      cases h
      exact hs
  | cons l rest ih =>
      simp only [follow] at h
      split at h
      · rename_i henv
        rcases Option.bind_eq_some_iff.mp h with ⟨t, ht, hrest⟩
        exact ih (Reach.step hs henv ht) hrest
      · cases h

/-- What the given labels keep is kept by the whole replay. -/
theorem follow_invariant {I : σ → Prop} {labels : List ℓ} {s s' : σ}
    (hstep : ∀ l ∈ labels, ∀ s s', I s → step s l = some s' → I s') (hI : I s)
    (h : follow step env labels s = some s') : I s' := by
  induction labels generalizing s with
  | nil =>
      cases h
      exact hI
  | cons l rest ih =>
      simp only [follow] at h
      split at h
      · rcases Option.bind_eq_some_iff.mp h with ⟨t, ht, hrest⟩
        exact ih (fun l' hl' => hstep l' (List.mem_cons_of_mem l hl'))
          (hstep l List.mem_cons_self _ _ hI ht) hrest
      · cases h

/-- A replay whose last state passes a test yields a reachable state that
passes it. -/
theorem exists_reach_of_follow {init : σ → Prop} {s : σ} (hs : init s) (labels : List ℓ)
    (P : σ → Prop) [DecidablePred P]
    (h : (follow step env labels s).any (fun s' => decide (P s')) = true) :
    ∃ s', Reach step env init s' ∧ P s' := by
  cases hf : follow step env labels s with
  | none => simp [hf] at h
  | some s' =>
      refine ⟨s', reach_of_follow step env (Reach.init hs) hf, ?_⟩
      simpa [hf] using h

end Follow

end Runs
end BbbXinu
