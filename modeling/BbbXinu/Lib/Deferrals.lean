import Mathlib.Data.List.Basic
import Mathlib.Data.List.Infix

/-!
# Nested brackets that put work off

Between the first start and the stop that matches it work is put off.  All levels
share one counter of the brackets that are open and one flag, which says that
work was asked for and is cleared where the first bracket is opened.

Nothing here depends on a particular program.
-/

namespace BbbXinu
namespace Deferrals

inductive Event where
  | start
  | stop
  | attempt
  deriving DecidableEq, Repr

/-- What is remembered: the number of open brackets and the flag. -/
structure Cell where
  count : Nat
  flag : Bool

def Cell.next (c : Cell) : Event → Cell
  | .start => { count := c.count + 1, flag := if c.count = 0 then false else c.flag }
  | .stop => { c with count := c.count - 1 }
  | .attempt => if 0 < c.count then { c with flag := true } else c

/-- How many brackets are open; a stop that matches no start is ignored. -/
def depth (evs : List Event) : Nat :=
  evs.foldl
    (fun d e =>
      match e with
      | .start => d + 1
      | .stop => d - 1
      | .attempt => d) 0

/-- The outermost bracket that is open was opened behind the events {lit}`before`, and
the events {lit}`since` lie inside it. -/
structure Opened (evs before since : List Event) : Prop where
  split : evs = before ++ .start :: since
  closed : depth before = 0
  inside : ∀ p, p <+: since → 0 < depth (before ++ .start :: p)

/-- Work was asked for inside the outermost bracket that is open. -/
def Pending (evs : List Event) : Prop :=
  ∃ before since, Opened evs before since ∧ .attempt ∈ since

section

variable {evs before since : List Event} {e : Event} {c : Cell}

@[simp] theorem depth_start : depth (evs ++ [.start]) = depth evs + 1 := by
  unfold depth
  rw [List.foldl_append]
  rfl

@[simp] theorem depth_stop : depth (evs ++ [.stop]) = depth evs - 1 := by
  unfold depth
  rw [List.foldl_append]
  rfl

@[simp] theorem depth_attempt : depth (evs ++ [.attempt]) = depth evs := by
  unfold depth
  rw [List.foldl_append]
  rfl

theorem depth_le_length (evs : List Event) : depth evs ≤ evs.length := by
  induction evs using List.reverseRecOn with
  | nil => exact Nat.le_refl 0
  | append_singleton evs e ih =>
      rw [List.length_append, List.length_singleton]
      cases e with
      | start =>
          rw [depth_start]
          omega
      | stop =>
          rw [depth_stop]
          omega
      | attempt =>
          rw [depth_attempt]
          omega

/-!
## The outermost bracket
-/

theorem Opened.depth_pos (h : Opened evs before since) : 0 < depth evs := by
  rw [h.split]
  exact h.inside since (List.prefix_refl since)

theorem opened_start (h : depth evs = 0) : Opened (evs ++ [.start]) evs [] := by
  refine ⟨rfl, h, ?_⟩
  intro p hp
  rw [List.prefix_nil.mp hp, depth_start]
  exact Nat.succ_pos _

/-- An event that leaves the bracket open lies inside it. -/
theorem Opened.snoc (h : Opened evs before since) (hpos : 0 < depth (evs ++ [e])) :
    Opened (evs ++ [e]) before (since ++ [e]) := by
  have hsplit : evs ++ [e] = before ++ .start :: (since ++ [e]) := by
    rw [h.split, List.append_assoc]
    rfl
  refine ⟨hsplit, h.closed, ?_⟩
  intro p hp
  rcases List.prefix_concat_iff.mp hp with rfl | hp
  · rw [← hsplit]
    exact hpos
  · exact h.inside p hp

/-- What lay inside the bracket before the last event. -/
theorem Opened.init (h : Opened (evs ++ [e]) before since) :
    (since = [] ∧ e = .start) ∨
      ∃ init, since = init ++ [e] ∧ Opened evs before init := by
  cases List.eq_nil_or_concat' since with
  | inl hnil =>
      subst hnil
      left
      refine ⟨rfl, ?_⟩
      exact List.singleton_inj.mp (List.append_inj' h.split rfl).2
  | inr hcons =>
      rcases hcons with ⟨init, e', rfl⟩
      right
      have hsplit : evs ++ [e] = (before ++ .start :: init) ++ [e'] := by
        rw [h.split, List.append_assoc]
        rfl
      rcases List.append_inj' hsplit rfl with ⟨hevs, he⟩
      refine ⟨init, by rw [List.singleton_inj.mp he], hevs, h.closed, ?_⟩
      exact fun p hp => h.inside p (hp.trans (List.prefix_append _ _))

theorem exists_opened (h : 0 < depth evs) : ∃ before since, Opened evs before since := by
  induction evs using List.reverseRecOn with
  | nil => exact absurd h (Nat.lt_irrefl 0)
  | append_singleton evs e ih =>
      by_cases hpos : 0 < depth evs
      · rcases ih hpos with ⟨before, since, hopen⟩
        exact ⟨before, since ++ [e], hopen.snoc h⟩
      · have hzero := Nat.eq_zero_of_not_pos hpos
        cases e with
        | start => exact ⟨evs, [], opened_start hzero⟩
        | stop =>
            rw [depth_stop] at h
            omega
        | attempt =>
            rw [depth_attempt] at h
            omega

/-!
## What is pending
-/

theorem Pending.snoc (h : Pending evs) (hpos : 0 < depth (evs ++ [e])) : Pending (evs ++ [e]) := by
  rcases h with ⟨before, since, hopen, hmem⟩
  exact ⟨before, since ++ [e], hopen.snoc hpos, List.mem_append_left _ hmem⟩

theorem pending_start : Pending (evs ++ [.start]) ↔ 0 < depth evs ∧ Pending evs := by
  constructor
  · intro h
    rcases h with ⟨before, since, hopen, hmem⟩
    rcases hopen.init with ⟨rfl, _⟩ | ⟨init, rfl, hinit⟩
    · cases hmem
    · refine ⟨hinit.depth_pos, before, init, hinit, ?_⟩
      simpa using hmem
  · intro h
    apply h.2.snoc
    rw [depth_start]
    exact Nat.succ_pos _

theorem pending_attempt : Pending (evs ++ [.attempt]) ↔ 0 < depth evs := by
  constructor
  · intro h
    rcases h with ⟨before, since, hopen, _⟩
    rw [← depth_attempt]
    exact hopen.depth_pos
  · intro h
    rcases exists_opened h with ⟨before, since, hopen⟩
    refine ⟨before, since ++ [.attempt], hopen.snoc ?_, by simp⟩
    rw [depth_attempt]
    exact h

theorem pending_stop : Pending (evs ++ [.stop]) ↔ 1 < depth evs ∧ Pending evs := by
  constructor
  · intro h
    rcases h with ⟨before, since, hopen, hmem⟩
    have hpos := hopen.depth_pos
    rw [depth_stop] at hpos
    rcases hopen.init with ⟨_, he⟩ | ⟨init, rfl, hinit⟩
    · cases he
    · refine ⟨by omega, before, init, hinit, ?_⟩
      simpa using hmem
  · intro h
    apply h.2.snoc
    rw [depth_stop]
    omega

/-- The cell goes with the events. -/
structure Tracks (c : Cell) (evs : List Event) : Prop where
  count : c.count = depth evs
  flag : 0 < depth evs → (c.flag = true ↔ Pending evs)

/-- One shared flag is enough for all levels. -/
theorem Tracks.next (h : Tracks c evs) (e : Event) : Tracks (c.next e) (evs ++ [e]) := by
  have hcount := h.count
  cases e with
  | start =>
      refine ⟨by rw [depth_start, ← hcount]; rfl, ?_⟩
      intro _
      rw [pending_start, ← hcount]
      unfold Cell.next
      dsimp only
      by_cases hzero : c.count = 0
      · rw [if_pos hzero, hzero]
        simp
      · have hpos := Nat.pos_of_ne_zero hzero
        rw [if_neg hzero, h.flag (hcount ▸ hpos), and_iff_right hpos]
  | stop =>
      refine ⟨by rw [depth_stop, ← hcount]; rfl, ?_⟩
      intro hpos
      rw [depth_stop] at hpos
      show c.flag = true ↔ _
      rw [pending_stop, h.flag (by omega), and_iff_right (by omega)]
  | attempt =>
      unfold Cell.next
      dsimp only
      by_cases hpos : 0 < c.count
      · rw [if_pos hpos]
        refine ⟨by rw [depth_attempt, ← hcount], ?_⟩
        intro hdepth
        rw [depth_attempt] at hdepth
        exact iff_of_true rfl (pending_attempt.mpr hdepth)
      · rw [if_neg hpos]
        refine ⟨by rw [depth_attempt, ← hcount], ?_⟩
        intro hdepth
        rw [depth_attempt, ← hcount] at hdepth
        exact absurd hdepth hpos

end

end Deferrals
end BbbXinu
