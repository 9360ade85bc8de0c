import BbbXinu.Properties.Tables

/-!
# Delays

The keys of the sleep queue are differences, and a tick decrements the first one
only.  An observer counts the ticks that each sleeper has seen; a process that
went to sleep for {lit}`d` ticks is made ready by the {lit}`d`-th of them.
-/

namespace BbbXinu

open LinkedLists KeyedLists Runs

def Xinu.Asleep (s : Xinu) (p : Int) : Prop :=
  (s.proctab p).prstate = .sleep ∨ (s.proctab p).prstate = .rectim

instance (s : Xinu) (p : Int) : Decidable (s.Asleep p) :=
  inferInstanceAs (Decidable (_ ∨ _))

/-- The delay of each sleeper and the ticks since. -/
abbrev Timers := Int → Option (Int × Nat)

def Timers.record (z : Timers) (s : Xinu) (l : Label) (s' : Xinu) : Timers := fun p =>
  if s'.Asleep p then
    match s.sleepDelay l with
    | some delay => if p = s.currpid then some (delay, 0) else z p
    | none => if l = .call .clkhandler then (z p).map fun t => (t.1, t.2 + 1) else z p
  else none

/-- The machine with its timers, all of them off at first. -/
def timedStep : Xinu × Timers → Label → Option (Xinu × Timers) :=
  observed Xinu.step Timers.record

def TimedBoot (t : Xinu × Timers) : Prop := Booted t.1 ∧ t.2 = fun _ => none

theorem timedBoot_sample : TimedBoot (sampleBoot, fun _ => none) := ⟨booted_sample, rfl⟩

/-- What a step does to the sleepers. -/
structure OnTime (t : Xinu × Timers) (l : Label) (t' : Xinu × Timers) : Prop where
  /-- The last tick of a delay, the next one where the delay is 0, ends the sleep. -/
  wakes : l = .call .clkhandler → ∀ p d n, t.2 p = some (d, n) → (n : Int) + 1 = max 1 d →
    t'.1.Alive p
  keeps : l = .call .clkhandler → ∀ p d n, t.2 p = some (d, n) → (n : Int) + 1 < max 1 d →
    t'.1.Asleep p
  off : l ≠ .call .clkhandler → ∀ p, t.1.Asleep p → t'.1.Asleep p ∨ t.1.takesOff l p
  sleeps : ∀ d, t.1.sleepDelay l = some d →
    t'.1.Asleep t.1.currpid ∧ t'.2 t.1.currpid = some (d, 0)

/-- Each sleeper has a timer that has not run out. -/
structure Timely (t : Xinu × Timers) : Prop where
  timer : ∀ p, t.1.Asleep p → ∃ d n, t.2 p = some (d, n) ∧ (n : Int) < max 1 d
  off : ∀ p, ¬ t.1.Asleep p → t.2 p = none

def Watch.timed : Watch := { count := False, keys := False, delays := True }

/-- The due times of the view are what is left on the timers. -/
structure Timed (g : View) (t : Xinu × Timers) : Prop where
  good : Good .timed g t.1
  calm : Calm g
  off : ∀ p, p ∉ g.lists sleepq → t.2 p = none
  timer : ∀ p ∈ g.lists sleepq, ∃ d n, t.2 p = some (d, n) ∧ g.due p = d - n ∧ 0 < d

section

variable {g : View} {t t' : Xinu × Timers} {l : Label}

theorem Timed.asleep_iff (hT : Timed g t) (p : Int) :
    t.1.Asleep p ↔ p ∈ g.lists sleepq := by
  rw [← hT.good.ok.inv.lists_eq sleepq (by decide)]
  exact (tablesAgree_of_good hT.good hT.calm).asleep p

theorem Timed.timely (hT : Timed g t) : Timely t where
  timer := by
    intro p hp
    have hmem := (hT.asleep_iff p).mp hp
    rcases hT.timer p hmem with ⟨d, n, hz, hdue, hpos⟩
    refine ⟨d, n, hz, ?_⟩
    have hleft := (hT.good.asleep trivial p hmem).1
    rw [Int.max_eq_right (show 1 ≤ d from hpos)]
    omega
  off := fun p hp => hT.off p fun hmem => hp ((hT.asleep_iff p).mpr hmem)

theorem Timed.fits (hT : Timed g t) (hcalls : TableCalls t.1 l) (htimes : TimesFit t.1 l) :
    Fits .timed t.1 l :=
  hcalls.fits ⟨g, hT.good, hT.calm⟩ id False.elim fun _ => htimes

/-- The timers follow the view. -/
theorem Timed.step (hT : Timed g t) (hcalls : TableCalls t.1 l) (htimes : TimesFit t.1 l)
    (hstep : timedStep t l = some t') : ∃ g', g.Moves .timed t.1 l g' t'.1 ∧ Timed g' t' := by
  rcases observed_eq hstep with ⟨hs, hz⟩
  have hfit := hT.fits hcalls htimes
  rcases step_good hT.good hfit hs with ⟨g', hmoves, hG'⟩
  have hcalm' : Calm g' := hT.calm.moves hT.good hcalls.calm hmoves
  have hasleep : ∀ p, t'.1.Asleep p ↔ p ∈ g'.lists sleepq := by
    intro p
    rw [← hG'.ok.inv.lists_eq sleepq (by decide)]
    exact (tablesAgree_of_good hG' hcalm').asleep p
  have hrecord : ∀ p ∈ g'.lists sleepq, t'.2 p =
      match t.1.sleepDelay l with
      | some delay => if p = t.1.currpid then some (delay, 0) else t.2 p
      | none =>
          if l = .call .clkhandler then (t.2 p).map fun t => (t.1, t.2 + 1) else t.2 p := by
    intro p hp
    rw [hz]
    exact if_pos ((hasleep p).mpr hp)
  refine ⟨g', hmoves, hG', hcalm', ?_, ?_⟩
  · intro p hp
    rw [hz]
    exact if_neg fun h => hp ((hasleep p).mp h)
  · intro p hp
    rw [hrecord p hp]
    cases moves_sleepMove hT.good hfit hmoves with
    | tick hl h =>
        rw [hl]
        rcases h with ⟨l₁, l₂, happ, _, _, rfl⟩
        rw [View.setList_at] at hp
        rcases hT.timer p (by rw [happ]; exact List.mem_append_right l₁ hp) with
          ⟨d, n, hzp, hdue, hpos⟩
        refine ⟨d, n + 1, ?_, ?_, hpos⟩
        · show (t.2 p).map _ = _
          rw [hzp]
          rfl
        · show g.due p - 1 = d - (n + 1 : Nat)
          omega
    | @sleep d due hl hd h =>
        rw [hl]
        dsimp only
        rcases h with ⟨l₁, l₂, happ, rfl⟩
        show ∃ d' n, _ = some (d', n) ∧ upd g.due t.1.currpid due p = d' - (n : Nat) ∧ 0 < d'
        by_cases hpc : p = t.1.currpid
        · refine ⟨d, 0, if_pos hpc, ?_, (hd trivial).2.1⟩
          rw [hpc, upd_self, (hd trivial).1]
          exact (Int.sub_zero d).symm
        · rw [if_neg hpc, upd_of_ne hpc]
          apply hT.timer p
          have hp' : p ∈ l₁ ++ t.1.currpid :: l₂ := by
            rw [← View.setList_at g sleepq (l₁ ++ t.1.currpid :: l₂)]
            exact hp
          rw [happ]
          simp only [List.mem_append, List.mem_cons] at hp' ⊢
          exact hp'.imp id fun h => h.resolve_left hpc
    | keep hl hd h =>
        rw [hd]
        dsimp only
        rw [if_neg hl, h.due]
        exact hT.timer p (h.sub p hp)

/-- What the move of the view says about the sleepers. -/
theorem Timed.onTime (hT : Timed g t) (hcalls : TableCalls t.1 l) (htimes : TimesFit t.1 l)
    (hstep : timedStep t l = some t') : OnTime t l t' := by
  rcases hT.step hcalls htimes hstep with ⟨g', hmoves, hT'⟩
  have hsleeper : ∀ p d n, t.2 p = some (d, n) →
      p ∈ g.lists sleepq ∧ g.due p = d - n ∧ 0 < d := by
    intro p d n hz
    by_cases hmem : p ∈ g.lists sleepq
    · rcases hT.timer p hmem with ⟨d', n', hz', hdue, hpos⟩
      rw [hz] at hz'
      cases hz'
      exact ⟨hmem, hdue, hpos⟩
    · rw [hT.off p hmem] at hz
      cases hz
  cases moves_sleepMove hT.good (hT.fits hcalls htimes) hmoves with
  | tick hl h =>
      rcases h with ⟨l₁, l₂, happ, hdue, halive, rfl⟩
      constructor
      · intro _ p d n hz hlast
        rcases hsleeper p d n hz with ⟨hmem, hleft, hpos⟩
        rw [happ] at hmem
        rw [Int.max_eq_right (show 1 ≤ d from hpos)] at hlast
        rcases List.mem_append.mp hmem with h1 | h2
        · exact halive p h1
        · have h3 := (hdue trivial).2 p h2
          omega
      · intro _ p d n hz hmore
        rcases hsleeper p d n hz with ⟨hmem, hleft, hpos⟩
        rw [happ] at hmem
        rw [Int.max_eq_right (show 1 ≤ d from hpos)] at hmore
        rcases List.mem_append.mp hmem with h1 | h2
        · have h3 := (hdue trivial).1 p h1
          omega
        · rw [hT'.asleep_iff, View.setList_at]
          exact h2
      · exact fun hne => absurd hl hne
      · intro d hd
        rw [hl] at hd
        cases hd
  | @sleep d due hl hd h =>
      have hmem : t.1.currpid ∈ g'.lists sleepq := by
        rcases h with ⟨l₁, l₂, _, rfl⟩
        show _ ∈ (g.setList sleepq (l₁ ++ t.1.currpid :: l₂)).lists sleepq
        rw [View.setList_at]
        exact List.mem_append_right l₁ List.mem_cons_self
      have hclk : l ≠ .call .clkhandler := by
        rintro rfl
        cases hl
      constructor
      · exact fun h => absurd h hclk
      · exact fun h => absurd h hclk
      · intro _ p hp
        left
        rw [hT'.asleep_iff]
        rcases h with ⟨l₁, l₂, happ, rfl⟩
        show p ∈ (g.setList sleepq (l₁ ++ t.1.currpid :: l₂)).lists sleepq
        rw [hT.asleep_iff, happ] at hp
        rw [View.setList_at]
        simp only [List.mem_append, List.mem_cons] at hp ⊢
        exact hp.imp id Or.inr
      · intro d' hd'
        have hasleep := (hT'.asleep_iff t.1.currpid).mpr hmem
        refine ⟨hasleep, ?_⟩
        rw [(observed_eq hstep).2]
        unfold Timers.record
        rw [if_pos hasleep, hd']
        exact if_pos rfl
  | keep hl hd h =>
      constructor
      · exact fun h => absurd h hl
      · exact fun h => absurd h hl
      · intro _ p hp
        by_cases htaken : t.1.takesOff l p
        · exact Or.inr htaken
        · rw [hT.asleep_iff] at hp
          exact Or.inl ((hT'.asleep_iff p).mpr (h.kept p hp htaken))
      · intro d' hd'
        rw [hd] at hd'
        cases hd'

theorem tableCalls_tick (s : Xinu) : TableCalls s (.call .clkhandler) :=
  ⟨rfl, rfl, fun _ => id⟩

theorem timedStep_tick (hrun : t.1.halted = false) (huser : t.1.inUser) :
    timedStep t (.call .clkhandler) = some
      (t.1.clkhandler, t.2.record t.1 (.call .clkhandler) t.1.clkhandler) := by
  unfold timedStep observed Xinu.step
  rw [hrun, huser]
  rfl

/-- In every run whose delays are positive 32-bit numbers, each sleeper wakes on
time, unless a step takes it off the queue. -/
theorem wakes_on_time
    (h : Reach timedStep (fun t l => TableCalls t.1 l ∧ TimesFit t.1 l) TimedBoot t) :
    Timely t ∧ ∀ l t', TableCalls t.1 l → TimesFit t.1 l → timedStep t l = some t' →
      OnTime t l t' := by
  have hT : ∃ g, Timed g t := by
    apply h.invariant
    · rintro ⟨s, z⟩ ⟨⟨mem, rand, rfl⟩, rfl⟩
      exact ⟨bootView, sysinit_good .timed mem rand, calm_boot, fun _ _ => rfl,
        fun p hp => by cases hp⟩
    · intro t l t' _ hT henv hstep
      rcases hT with ⟨g, hT⟩
      rcases hT.step henv.1 henv.2 hstep with ⟨g', _, hT'⟩
      exact ⟨g', hT'⟩
  rcases hT with ⟨g, hT⟩
  exact ⟨hT.timely, fun l t' hcalls htimes hstep => hT.onTime hcalls htimes hstep⟩

end

/-- A process sleeps for three ticks; after two of them the third wakes it. -/
theorem wakes_on_time_third :
    ∃ t, (t.1.Asleep 1 ∧ t.2 1 = some (3, 2)) ∧ OnTime t (.call .clkhandler)
      (t.1.clkhandler, t.2.record t.1 (.call .clkhandler) t.1.clkhandler) := by
  rcases exists_reach_of_follow timedStep (fun t l => TableCalls t.1 l ∧ TimesFit t.1 l)
    timedBoot_sample
    [.call (.create 4096 20), .call (.resume 1), .call (.sleepms 3), .cont,
      .call .clkhandler, .call .clkhandler]
    (fun t => (t.1.Asleep 1 ∧ t.2 1 = some (3, 2)) ∧ t.1.inUser ∧ t.1.halted = false)
    (by decide +kernel) with ⟨t, ht, hp, huser, hrun⟩
  refine ⟨t, hp, (wakes_on_time ht).2 _ _ (tableCalls_tick t.1) ?_ (timedStep_tick hrun huser)⟩
  exact fun d hd => by cases hd

/-- {lit}`recvtime(0)` puts its caller first on the queue with a key of 0, which
the next tick makes negative: only a key that becomes 0 wakes a process. -/
theorem recvtime_oversleeps :
    ¬ ∀ t, Reach timedStep (fun t l => TableCalls t.1 l) TimedBoot t →
      ∀ l t', TableCalls t.1 l → timedStep t l = some t' → OnTime t l t' := by
  intro h
  rcases exists_reach_of_follow timedStep (fun t l => TableCalls t.1 l)
    timedBoot_sample
    [.call (.create 4096 20), .call (.resume 1), .call (.recvtime 0), .cont]
    (fun t => t.2 1 = some (0, 0) ∧ (t.1.inUser ∧ t.1.halted = false) ∧
      (t.1.clkhandler.proctab 1).prstate = .rectim)
    (by decide +kernel) with ⟨t, ht, htimer, ⟨huser, hrun⟩, hasleep⟩
  have hwakes := (h t ht _ _ (tableCalls_tick t.1) (timedStep_tick hrun huser)).wakes
    rfl 1 0 0 htimer rfl
  unfold Xinu.Alive at hwakes
  dsimp only at hwakes
  rw [hasleep] at hwakes
  exact absurd hwakes (by decide)

end BbbXinu
