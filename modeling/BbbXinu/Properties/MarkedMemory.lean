import BbbXinu.Kernel.Mark

/-!
# What is marked

{lit}`mark` asks whether the location is marked, and whether there is room, before it takes
the semaphore, and acts on the answers after it.  What must not go wrong is lost at the
first insertion whose answers are out of date, and at no other step.
-/

namespace BbbXinu
namespace Marking

variable {Pid Loc : Type}

/-- The array is not overrun and has no location twice, and every location for which
{lit}`mark` returned {lit}`OK` passes its test. -/
structure Kept (m : Marking Pid Loc) : Prop where
  bound : m.nmarks ≤ MAXMARK
  inside : ∀ i ∈ m.written, 0 ≤ i ∧ i < MAXMARK
  once : ∀ i j, 0 ≤ i → i < m.nmarks → 0 ≤ j → j < m.nmarks → m.marks i = m.marks j → i = j
  recognised : ∀ loc ∈ m.returned, m.Marked loc

/-- A process inserts a location only while both tests would still let it. -/
def Fits (m : Marking Pid Loc) : MarkLabel Pid Loc → Prop
  | .insert pid =>
      match m.phase pid with
      | .entered loc => ¬m.Marked loc ∧ m.nmarks < MAXMARK
      | _ => True
  | _ => True

instance [DecidableEq Loc] (m : Marking Pid Loc) (label : MarkLabel Pid Loc) :
    Decidable (m.Fits label) :=
  match label with
  | .insert pid =>
      match h : m.phase pid with
      | .entered loc =>
          decidable_of_iff (¬m.Marked loc ∧ m.nmarks < MAXMARK) (by simp [Fits, h])
      | .outside | .tested _ | .waiting _ | .inserted _ => isTrue (by simp [Fits, h])
  | .mark _ _ | .wait _ | .resume _ | .signal _ => inferInstanceAs (Decidable True)

/-- The word at each location of the array is its index there, and a location that was
inserted is marked also before its call returns. -/
structure Sound (m : Marking Pid Loc) : Prop where
  kept : m.Kept
  nonneg : 0 ≤ m.nmarks
  index : ∀ i, 0 ≤ i → i < m.nmarks → m.word (m.marks i) = i
  phases : ∀ pid loc, m.phase pid = .inserted loc → m.Marked loc

section

variable {m m' : Marking Pid Loc} {pid q : Pid} {loc l : Loc} {phase : MarkPhase Loc}
  {label : MarkLabel Pid Loc} {T : Turnstile Pid}

/-!
## What changes no mark
-/

theorem Sound.init (h : Init m) : m.Sound where
  kept :=
    { bound := by simp [h.nmarks, MAXMARK]
      inside := by simp [h.written]
      once := by
        intro i j hi hlt
        have hzero := h.nmarks
        omega
      recognised := by simp [h.returned] }
  nonneg := by simp [h.nmarks]
  index := by
    intro i hi hlt
    have hzero := h.nmarks
    omega
  phases := by simp [h.phase]

theorem Sound.setMutex (h : m.Sound) : { m with mkmutex := T }.Sound where
  kept := ⟨h.kept.bound, h.kept.inside, h.kept.once, h.kept.recognised⟩
  nonneg := h.nonneg
  index := h.index
  phases := h.phases

theorem Sound.ok (h : m.Sound) (hloc : m.Marked loc) : (m.ok loc).Sound where
  kept :=
    { bound := h.kept.bound
      inside := h.kept.inside
      once := h.kept.once
      recognised := by
        intro l hl
        rcases List.mem_cons.mp hl with rfl | hl
        · exact hloc
        · exact h.kept.recognised l hl }
  nonneg := h.nonneg
  index := h.index
  phases := h.phases

/-- Every location of the array is marked. -/
theorem Sound.marked (h : m.Sound) {i : Int} (hi : 0 ≤ i) (hlt : i < m.nmarks) :
    m.Marked (m.marks i) := by
  unfold Marked
  rw [h.index i hi hlt]
  exact ⟨hi, hlt, rfl⟩

/-!
## Insertions
-/

theorem Sound.once_insert (h : m.Sound) (hloc : ¬m.Marked loc) (i j : Int) (hi : 0 ≤ i)
    (hilt : i < m.nmarks + 1) (hj : 0 ≤ j) (hjlt : j < m.nmarks + 1)
    (heq : upd m.marks m.nmarks loc i = upd m.marks m.nmarks loc j) : i = j := by
  simp only [upd_apply] at heq
  split at heq
  · split at heq
    · omega
    · exact absurd (heq ▸ h.marked hj (by omega)) hloc
  · split at heq
    · exact absurd (heq ▸ h.marked hi (by omega)) hloc
    · exact h.kept.once i j hi (by omega) hj (by omega) heq

section

variable [DecidableEq Loc]

/-- An insertion leaves the words at the other locations. -/
theorem word_insert_of_ne (h : l ≠ loc) : (m.insert loc).word l = m.word l := upd_of_ne h

theorem marked_insert_self (h : 0 ≤ m.nmarks) : (m.insert loc).Marked loc := by
  have hword : (m.insert loc).word loc = m.nmarks := upd_self
  have hmarks : (m.insert loc).marks m.nmarks = loc := upd_self
  have hn : (m.insert loc).nmarks = m.nmarks + 1 := rfl
  unfold Marked
  rw [hword, hmarks, hn]
  constructor
  · exact h
  · exact ⟨by omega, rfl⟩

/-- What was marked stays so. -/
theorem Marked.insert (h : m.Marked l) (hloc : ¬m.Marked loc) : (m.insert loc).Marked l := by
  have hne : l ≠ loc := fun heq => hloc (heq ▸ h)
  obtain ⟨h0, hlt, heq⟩ := h
  unfold Marked
  rw [word_insert_of_ne hne]
  constructor
  · exact h0
  constructor
  · change _ < m.nmarks + 1
    omega
  · change upd m.marks m.nmarks loc _ = l
    rw [upd_of_ne (by omega)]
    exact heq

/-- An insertion whose tests still hold. -/
theorem Sound.insert (h : m.Sound) (hloc : ¬m.Marked loc) (hroom : m.nmarks < MAXMARK) :
    (m.insert loc).Sound where
  kept :=
    { bound := by
        change m.nmarks + 1 ≤ MAXMARK
        omega
      inside := by
        intro i hi
        rcases List.mem_cons.mp hi with rfl | hi
        · exact ⟨h.nonneg, hroom⟩
        · exact h.kept.inside i hi
      once := h.once_insert hloc
      recognised := fun l hl => (h.kept.recognised l hl).insert hloc }
  nonneg := by
    have h0 := h.nonneg
    change 0 ≤ m.nmarks + 1
    omega
  index := by
    intro i hi hlt
    change i < m.nmarks + 1 at hlt
    change (m.insert loc).word (upd m.marks m.nmarks loc i) = i
    by_cases heq : i = m.nmarks
    · rw [heq, upd_self]
      exact upd_self
    · have hmarked := h.marked hi (by omega)
      have hne : m.marks i ≠ loc := fun he => hloc (he ▸ hmarked)
      rw [upd_of_ne heq, word_insert_of_ne hne]
      exact h.index i hi (by omega)
  phases := fun q l hq => (h.phases q l hq).insert hloc

/-- An insertion without room overruns the array, and one of a marked location has it
twice. -/
theorem Sound.fits_of_kept (h : m.Sound) (hkept : (m.insert loc).Kept) :
    ¬m.Marked loc ∧ m.nmarks < MAXMARK := by
  have hn : (m.insert loc).nmarks = m.nmarks + 1 := rfl
  have hbound := hkept.bound
  rw [hn] at hbound
  constructor
  · intro hmarked
    obtain ⟨h0, hlt, heq⟩ := hmarked
    have hold : (m.insert loc).marks (m.word loc) = loc := by
      change upd m.marks m.nmarks loc _ = loc
      rw [upd_of_ne (by omega)]
      exact heq
    have hnew : (m.insert loc).marks m.nmarks = loc := upd_self
    have htwice := hkept.once (m.word loc) m.nmarks h0 (by omega) h.nonneg (by omega)
      (hold.trans hnew.symm)
    omega
  · omega

end

/-!
## Runs
-/

section

variable [DecidableEq Pid]

/-- A process goes on.  Only a location that is marked may have been inserted. -/
theorem Sound.setPhase (h : m.Sound)
    (hphase : ∀ loc, phase = .inserted loc → m.Marked loc) : (m.setPhase pid phase).Sound where
  kept := ⟨h.kept.bound, h.kept.inside, h.kept.once, h.kept.recognised⟩
  nonneg := h.nonneg
  index := h.index
  phases := by
    intro q loc hq
    change upd m.phase pid phase q = _ at hq
    by_cases heq : q = pid
    · rw [heq, upd_self] at hq
      exact hphase loc hq
    · rw [upd_of_ne heq] at hq
      exact h.phases q loc hq

theorem Sound.wait (h : m.Sound) : (m.wait pid loc).Sound := by
  apply h.setMutex.setPhase
  intro l hl
  split at hl <;> cases hl

variable [DecidableEq Loc]

theorem Sound.mark (h : m.Sound) : (m.mark pid loc).Sound := by
  unfold Marking.mark
  split
  · exact h.ok ‹_›
  · split
    · exact h
    · exact h.setPhase (by simp)

theorem Sound.step (h : m.Sound) (hfits : m.Fits label) (hs : m.step label = some m') :
    m'.Sound := by
  cases label with
  | mark pid loc =>
      cases hphase : m.phase pid <;> simp only [Marking.step, hphase] at hs <;> cases hs
      exact h.mark
  | wait pid =>
      cases hphase : m.phase pid <;> simp only [Marking.step, hphase] at hs <;> cases hs
      exact h.wait
  | resume pid =>
      cases hphase : m.phase pid with
      | waiting loc =>
          simp only [Marking.step, hphase] at hs
          obtain ⟨_, hs⟩ := Option.ite_none_right_eq_some.mp hs
          cases hs
          exact h.setMutex.setPhase (by simp)
      | _ => simp [Marking.step, hphase] at hs
  | insert pid =>
      cases hphase : m.phase pid with
      | entered loc =>
          simp only [Marking.step, hphase] at hs
          simp only [Fits, hphase] at hfits
          cases hs
          apply (h.insert hfits.1 hfits.2).setPhase
          intro l hl
          cases hl
          exact marked_insert_self h.nonneg
      | _ => simp [Marking.step, hphase] at hs
  | signal pid =>
      cases hphase : m.phase pid with
      | inserted loc =>
          simp only [Marking.step, hphase] at hs
          cases hs
          exact (h.setMutex.setPhase (by simp)).ok (h.phases pid loc hphase)
      | _ => simp [Marking.step, hphase] at hs

/-- Only an insertion can go wrong. -/
theorem Sound.fits (h : m.Sound) (hs : m.step label = some m') (hkept : m'.Kept) :
    m.Fits label := by
  cases label with
  | insert pid =>
      cases hphase : m.phase pid with
      | entered loc =>
          simp only [Marking.step, hphase] at hs
          cases hs
          simp only [Fits, hphase]
          exact h.fits_of_kept
            ⟨hkept.bound, hkept.inside, hkept.once, hkept.recognised⟩
      | _ => simp [Fits, hphase]
  | _ => trivial

end

end

/-- In every run in which each insertion finds its two tests still true, nothing goes wrong,
and in every state that such a run reaches, a step goes wrong exactly when it inserts a
location for which one of the tests is no longer true. -/
theorem memory_marked [DecidableEq Pid] [DecidableEq Loc] {m : Marking Pid Loc}
    (h : Runs.Reach step Fits Init m) :
    m.Kept ∧ ∀ label m', m.step label = some m' → (m'.Kept ↔ m.Fits label) := by
  have hsound : m.Sound :=
    h.invariant (fun _ hinit => Sound.init hinit) fun _ _ _ _ hI hfits hs => hI.step hfits hs
  constructor
  · exact hsound.kept
  · intro label m' hs
    constructor
    · exact hsound.fits hs
    · exact fun hfits => (hsound.step hfits hs).kept

/-- The marks at the start, with 7 in every word. -/
def sevens : Marking Nat Nat where
  marks := fun _ => 0
  nmarks := 0
  mkmutex := Turnstile.idle 1
  word := fun _ => 7
  phase := fun _ => .outside
  written := []
  returned := []

theorem init_sevens : sevens.Init := ⟨rfl, rfl, fun _ => rfl, rfl, rfl⟩

/-- Two processes mark two locations at the same time, and one asks again. -/
theorem memory_marked_two : ∃ m : Marking Nat Nat,
    (m.nmarks = 2 ∧ m.returned = [5, 6, 5]) ∧ m.Kept := by
  obtain ⟨m, hm, hmarks⟩ := Runs.exists_reach_of_follow step Fits init_sevens
    [.mark 1 5, .mark 2 6, .wait 1, .wait 2, .insert 1, .signal 1, .resume 2, .insert 2,
      .signal 2, .mark 1 5]
    (fun m => m.nmarks = 2 ∧ m.returned = [5, 6, 5]) (by decide +kernel)
  exact ⟨m, hmarks, (memory_marked hm).1⟩

/-- Two processes test the same location before one of them takes the semaphore. -/
theorem marked_twice : ∃ m : Marking Nat Nat,
    Runs.Reach step (fun _ _ => True) Init m ∧ ¬m.Kept := by
  obtain ⟨m, hm, hn, h0, h1⟩ := Runs.exists_reach_of_follow step (fun _ _ => True)
    init_sevens
    [.mark 1 5, .mark 2 5, .wait 2, .insert 2, .signal 2, .wait 1, .insert 1, .signal 1]
    (fun m => m.nmarks = 2 ∧ m.marks 0 = 5 ∧ m.marks 1 = 5) (by decide +kernel)
  refine ⟨m, hm, fun hkept => ?_⟩
  have heq := hkept.once 0 1 (by decide) (by omega) (by decide) (by omega) (h0.trans h1.symm)
  omega

end Marking
end BbbXinu
