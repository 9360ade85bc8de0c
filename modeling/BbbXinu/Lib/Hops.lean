import Mathlib.Data.List.Infix
import Mathlib.Logic.Function.Iterate
import Mathlib.Order.Basic

/-!
# Steps that lead to further steps

A step may fail, and otherwise it gives an answer and the place where the next step
starts.  Steps are taken while their answers ask for another one.  A loop that tests its
state before each turn is told by the turns that it takes.  A loop over a list stops at the
first item with which what was done does not go well any more.

Nothing here depends on a particular program.
-/

namespace BbbXinu
namespace Hops

variable {α β : Type} (step : α → Option (β × α)) (again : β → Prop) [DecidablePred again]

/-- The first answer that does not ask for another step, and the place with it, after at
most the given number of steps. -/
def follow : Nat → α → Option (β × α)
  | 0, _ => none
  | n + 1, a =>
      match step a with
      | none => none
      | some (b, a') => if again b then follow n a' else some (b, a')

/-- The place after a number of steps that all ask for another one. -/
def hops : Nat → α → Option α
  | 0, a => some a
  | k + 1, a =>
      match step a with
      | none => none
      | some (b, a') => if again b then hops k a' else none

/-- The answer comes after some steps that ask for another one, and one that does not. -/
def Leaves (n : Nat) (a : α) : Prop :=
  ∃ k < n, ∃ a', hops step again k a = some a' ∧ ∃ r ∈ step a', ¬ again r.1

variable {step again} {a a' : α} {b : β} {n : Nat}

theorem follow_of_none (h : step a = none) : follow step again n a = none := by
  cases n with
  | zero => rfl
  | succ n =>
      unfold follow
      rw [h]

theorem follow_of_again (h : step a = some (b, a')) (hb : again b) :
    follow step again (n + 1) a = follow step again n a' := by
  rw [follow, h]
  exact if_pos hb

theorem follow_of_last (h : step a = some (b, a')) (hb : ¬ again b) :
    follow step again (n + 1) a = some (b, a') := by
  rw [follow, h]
  exact if_neg hb

/-- The answer is that of some step. -/
theorem follow_answer {r : β × α} (h : follow step again n a = some r) :
    ∃ a', step a' = some r := by
  induction n generalizing a with
  | zero => cases h
  | succ n ih =>
      cases hstep : step a with
      | none =>
          rw [follow_of_none hstep] at h
          cases h
      | some q =>
          by_cases hb : again q.1
          · rw [follow_of_again hstep hb] at h
            exact ih h
          · rw [follow_of_last hstep hb] at h
            exact ⟨a, hstep.trans h⟩

theorem leaves_succ_of_again (h : step a = some (b, a')) (hb : again b) :
    Leaves step again (n + 1) a ↔ Leaves step again n a' := by
  constructor
  · rintro ⟨k, hk, c, hc, r, hr, hlast⟩
    cases k with
    | zero =>
        cases hc
        rw [h] at hr
        cases hr
        exact absurd hb hlast
    | succ k =>
        rw [hops, h] at hc
        exact ⟨k, by omega, c, (if_pos hb).symm.trans hc, r, hr, hlast⟩
  · rintro ⟨k, hk, c, hc, hrest⟩
    refine ⟨k + 1, by omega, c, ?_, hrest⟩
    rw [hops, h]
    exact (if_pos hb).trans hc

/-- There is an answer if and only if the steps lead to one in time. -/
theorem follow_isSome_iff : (follow step again n a).isSome ↔ Leaves step again n a := by
  induction n generalizing a with
  | zero =>
      refine iff_of_false Bool.false_ne_true ?_
      rintro ⟨k, hk, -⟩
      omega
  | succ n ih =>
      cases hstep : step a with
      | none =>
          rw [follow_of_none hstep]
          refine iff_of_false Bool.false_ne_true ?_
          rintro ⟨k, -, c, hc, r, hr, -⟩
          cases k with
          | zero =>
              cases hc
              rw [hstep] at hr
              cases hr
          | succ k =>
              rw [hops, hstep] at hc
              cases hc
      | some q =>
          by_cases hb : again q.1
          · rw [follow_of_again hstep hb, leaves_succ_of_again hstep hb]
            exact ih
          · rw [follow_of_last hstep hb]
            exact iff_of_true rfl ⟨0, Nat.succ_pos n, a, rfl, q, hstep, hb⟩

/-!
## Loops
-/

section Loop

variable {again : α → Prop} [DecidablePred again] {body : α → α} {a b : α} {fuel : Nat}

/-- The state in which the test of a loop fails, after fewer turns than given. -/
def loop (again : α → Prop) [DecidablePred again] (body : α → α) : Nat → α → Option α
  | 0, _ => none
  | fuel + 1, a => if again a then loop again body fuel (body a) else some a

theorem loop_eq_some_iff : loop again body fuel a = some b ↔
    ∃ k < fuel, (∀ j < k, again (body^[j] a)) ∧ ¬again (body^[k] a) ∧ body^[k] a = b := by
  induction fuel generalizing a with
  | zero =>
      refine iff_of_false (Option.some_ne_none b).symm ?_
      rintro ⟨k, hk, _⟩
      exact Nat.not_lt_zero k hk
  | succ fuel ih =>
      unfold loop
      by_cases hagain : again a
      · rw [if_pos hagain, ih]
        constructor
        · rintro ⟨k, hk, hbefore, hlast⟩
          refine ⟨k + 1, Nat.succ_lt_succ hk, fun j hj => ?_, hlast⟩
          cases j with
          | zero => exact hagain
          | succ j => exact hbefore j (Nat.lt_of_succ_lt_succ hj)
        · rintro ⟨k, hk, hbefore, hlast, hb⟩
          cases k with
          | zero => exact absurd hagain hlast
          | succ k =>
              exact ⟨k, Nat.lt_of_succ_lt_succ hk, fun j hj => hbefore (j + 1) (Nat.succ_lt_succ hj),
                hlast, hb⟩
      · rw [if_neg hagain]
        constructor
        · intro hab
          exact ⟨0, Nat.succ_pos fuel, fun j hj => absurd hj (Nat.not_lt_zero j), hagain,
            Option.some.inj hab⟩
        · rintro ⟨k, _, hbefore, _, hb⟩
          cases k with
          | zero => exact congrArg some hb
          | succ k => exact absurd (hbefore 0 (Nat.succ_pos k)) hagain

end Loop

section Fold

variable {ε σ : Type} {f : σ → β → Except ε σ} {S : List β → σ} {P : List β → Prop}
  [DecidablePred P] {l : List β} {u : ε}

/-- A loop over a list, from what one turn does behind the turns that went well. -/
theorem foldlM_eq_ite (hnil : P [])
    (hstep : ∀ done b, done ++ [b] <+: l → P done →
      f (S done) b = if P (done ++ [b]) then .ok (S (done ++ [b])) else .error u)
    (hbefore : ∀ done b, P (done ++ [b]) → P done) :
    l.foldlM f (S []) = if P l then .ok (S l) else .error u := by
  induction l using List.reverseRecOn with
  | nil =>
      rw [if_pos hnil]
      rfl
  | append_singleton l b ih =>
      have hl := ih fun done c hpre hwell =>
        hstep done c (hpre.trans (List.prefix_append l [b])) hwell
      rw [List.foldlM_append, hl]
      by_cases hwell : P l
      · rw [if_pos hwell, ← hstep l b (List.prefix_refl _) hwell]
        change (f (S l) b >>= fun s => Except.ok s) = _
        cases f (S l) b <;> rfl
      · rw [if_neg hwell, if_neg fun h => hwell (hbefore l b h)]
        rfl

omit [DecidablePred P] in
/-- What is so of the list of all turns so far, if a loop went through. -/
theorem foldlM_ok_induction {s r : σ} (h : l.foldlM f s = .ok r) (hnil : P [])
    (hstep : ∀ done b, done ++ [b] <+: l → P done → ∀ s₁ s₂, done.foldlM f s = .ok s₁ →
      f s₁ b = .ok s₂ → P (done ++ [b])) : P l := by
  induction l using List.reverseRecOn generalizing r with
  | nil => exact hnil
  | append_singleton l b ih =>
      rw [List.foldlM_append] at h
      cases hl : l.foldlM f s with
      | error u =>
          rw [hl] at h
          cases h
      | ok s₁ =>
          rw [hl] at h
          have hb : f s₁ b = .ok r := by
            change (f s₁ b >>= fun s => Except.ok s) = .ok r at h
            cases hf : f s₁ b with
            | error u =>
                rw [hf] at h
                cases h
            | ok s₂ =>
                rw [hf] at h
                exact h
          have hbefore := ih hl fun done c hpre =>
            hstep done c (hpre.trans (List.prefix_append l [b]))
          exact hstep l b (List.prefix_refl _) hbefore s₁ r hl hb

end Fold

end Hops
end BbbXinu
