import BbbXinu.Properties.Sessions

/-!
# Killing around blockers

{lit}`kill` recognizes what its victim holds by {lit}`prsem` and the flag.  Both
are right for a victim that waits; for one inside they are right only if it was
released from the queue, is ready and has used no other blocker since.
-/

namespace BbbXinu

open LinkedLists KeyedLists Runs

/-- Any calls that use the blockers as they should. -/
def FairCalls (t : Xinu × Books) (l : Label) : Prop :=
  AnyCalls t.1 l ∧ ∀ b ∈ Xinu.allRwbs, Fair b t l

instance (t : Xinu × Books) (l : Label) : Decidable (FairCalls t l) :=
  inferInstanceAs (Decidable (_ ∧ _))

/-- Every victim is where its state says and is taken for what it is; the same
holds of whoever signals. -/
def VictimsKnown (t : Xinu × Books) (l : Label) : Prop :=
  FindsLinked t.1 l ∧
    ∀ b ∈ Xinu.allRwbs, FlagFits b t l ∧ LeavesSettled b t l ∧ KillFits b t l

instance (t : Xinu × Books) (l : Label) : Decidable (VictimsKnown t l) :=
  inferInstanceAs (Decidable (_ ∧ _))

/-- A count other than 0 is that of a live process. -/
def InsidersLive (t : Xinu × Books) : Prop :=
  ∀ b, ¬ t.1.isbadrwb b → (t.1.rwbtab b).rwcount ≠ 0 →
    ∃ p ∈ Xinu.allPids, t.2.inside b p ≠ none ∧ (t.1.proctab p).prstate ≠ .free

/-- A killed process gives back its share of each count and its place in each
queue.  What it was inside may go to the first in the queue. -/
structure GivesBack (t : Xinu × Books) (pid : Int) (s' : Xinu) : Prop where
  share : ∀ b, ValidRwb b →
    (s'.rwbtab b).rwcount = (t.1.rwbtab b).rwcount - t.2.share b pid
  outside : ∀ b, ValidRwb b → t.2.inside b pid = none →
    s'.waiters b = (t.1.waiters b).erase pid ∧
      (s'.rwbtab b).qcount =
        (t.1.rwbtab b).qcount - if pid ∈ t.1.waiters b then 1 else 0
  inside : ∀ b, ValidRwb b → t.2.inside b pid ≠ none →
    s'.waiters b = t.1.waiters b ∧ (s'.rwbtab b).qcount = (t.1.rwbtab b).qcount ∨
      ∃ n, t.1.waiters b = n :: s'.waiters b ∧
        (s'.rwbtab b).qcount = (t.1.rwbtab b).qcount - 1

/-- The same, of the views. -/
structure Returns (b pid : Int) (k : Books) (g g' : View) : Prop where
  share : (g'.tab b).rwcount = (g.tab b).rwcount - k.share b pid
  outside : k.inside b pid = none → g'.lists (rwq b) = (g.lists (rwq b)).erase pid ∧
    (g'.tab b).qcount = (g.tab b).qcount - if pid ∈ g.lists (rwq b) then 1 else 0
  inside : k.inside b pid ≠ none →
    g'.lists (rwq b) = g.lists (rwq b) ∧ (g'.tab b).qcount = (g.tab b).qcount ∨
      ∃ n, g.lists (rwq b) = n :: g'.lists (rwq b) ∧
        (g'.tab b).qcount = (g.tab b).qcount - 1

section

variable {w : Watch} {g g' : View} {t t' : Xinu × Books} {s s' : Xinu} {k : Books}
  {b pid thisid rwb : Int} {r : Role} {l : Label} {fs : List Frame}

/-- The victim holds nothing of the blocker. -/
theorem Returns.nothing (hout : k.inside b pid = none) (hoff : pid ∉ g.lists (rwq b))
    (htab : g'.tab b = g.tab b) (hlists : g'.lists (rwq b) = g.lists (rwq b)) :
    Returns b pid k g g' where
  share := by
    rw [htab, share_none hout]
    exact (Int.sub_zero _).symm
  outside := by
    intro _
    rw [htab, hlists, List.erase_of_not_mem hoff, if_neg hoff]
    exact ⟨rfl, (Int.sub_zero _).symm⟩
  inside := fun h => absurd hout h

/-- The victim waits in the queue. -/
theorem Returns.place (hout : k.inside b pid = none) (hmem : pid ∈ g.lists (rwq b))
    (htab : g'.tab b = { g.tab b with qcount := (g.tab b).qcount - 1 })
    (hlists : g'.lists (rwq b) = (g.lists (rwq b)).erase pid) : Returns b pid k g g' where
  share := by
    rw [htab, share_none hout]
    exact (Int.sub_zero _).symm
  outside := by
    intro _
    rw [htab, hlists, if_pos hmem]
    exact ⟨rfl, rfl⟩
  inside := fun h => absurd hout h

/-- The victim is inside, and the blocker is signalled in its name. -/
theorem Returns.share_of_signal {g₁ : View} (hin : k.inside b pid = some r)
    (htab : g₁.tab b = { g.tab b with rwcount := (g.tab b).rwcount - r.flag })
    (hlists : g₁.lists (rwq b) = g.lists (rwq b)) {cur : Int}
    (hr : Releases g₁ cur thisid b g') : Returns b pid k g g' := by
  have hpop : ∀ (after : Frame) (n : Int) (rest : List Int), g₁.lists (rwq b) = n :: rest →
      Returns b pid k g (g₁.release cur b after) := by
    intro after n rest hqueue
    constructor
    · rw [View.release_tab, htab, share_some hin]
    · intro h
      rw [hin] at h
      cases h
    · intro _
      right
      refine ⟨n, ?_, ?_⟩
      · rw [View.release_queue, hqueue, ← hlists, hqueue, List.tail_cons]
      · rw [View.release_tab, htab]
  cases hr with
  | none hstop =>
      constructor
      · rw [htab, share_some hin]
      · intro h
        rw [hin] at h
        cases h
      · intro _
        left
        rw [hlists, htab]
        exact ⟨rfl, rfl⟩
  | writer hqueue hflag hcount => exact hpop _ _ _ hqueue
  | reader hqueue hflag => exact hpop _ _ _ hqueue

/-- A signal in the name of the victim, on whatever blocker. -/
theorem returns_signal (hI : Inv w g EMPTY t.1) (hL : Ledger b g t.2) (hb : ValidRwb b)
    (hvictim : Victim b t pid) (hkills : t.1.KillSignals pid rwb) (cur : Int)
    (htab : g'.tab = g.tab) (hlists : g'.lists = g.lists) (hflags : g'.flags = g.flags) :
    Returns b pid t.2 g (if g'.Usable rwb then g'.signalrwb cur pid rwb else g') := by
  have hoff : pid ∉ g.lists (rwq b) := by
    intro hm
    have hwait := wait_of_mem hI hb hm
    rw [hkills.1] at hwait
    cases hwait
  by_cases hrwb : b = rwb
  · cases hrwb
    rcases hvictim.fits with h | ⟨_, hflag, _⟩
    · exact absurd hkills h.2
    · rcases Option.map_eq_some_iff.mp hflag with ⟨r, hr, hrflag⟩
      have hused := hL.used (b := b) (p := pid) (by
        rw [hr]
        exact fun h => by cases h)
      rw [← htab] at hused
      rw [hI.flags, ← hflags] at hrflag
      have hrel : Releases ((g'.setFlag pid 0).setRwb b fun e =>
          { e with rwcount := if g'.flags pid = -1 then e.rwcount + 1 else e.rwcount - 1 })
          cur pid b (g'.signalrwb cur pid b) := signalNext_releases _ _ _ _
      rw [if_pos ⟨hb, hused⟩]
      refine Returns.share_of_signal hr ?_ ?_ hrel
      · rw [View.setRwb_at, ← hrflag]
        dsimp only
        rw [giveBack, show (g'.setFlag pid 0).tab = g.tab from htab]
      · exact congrFun hlists _
  · have hout : t.2.inside b pid = none := by
      apply hvictim.out
      intro h
      have h1 := h.2.2
      have h2 := hkills.2.2
      omega
    split
    · have hl := signalrwb_local g' cur pid rwb
      apply Returns.nothing hout hoff
      · rw [hl.tab b hrwb, htab]
      · rw [hl.lists _ fun h => hrwb (rwq_inj h), hlists]
    · exact Returns.nothing hout hoff (congrFun htab b) (congrFun hlists _)

theorem returns_ready (hI : Inv w g EMPTY t.1) (hL : Ledger b g t.2) (hb : ValidRwb b)
    (hvictim : Victim b t pid) (hready : (t.1.proctab pid).prstate = .ready) (cur : Int)
    (htab : g'.tab = g.tab) (hlists : g'.lists = g.lists) (hflags : g'.flags = g.flags) :
    Returns b pid t.2 g (g'.killReady cur pid (t.1.proctab pid).prsem) := by
  unfold View.killReady
  split
  · rename_i hsig
    have hkills : t.1.KillSignals pid (-1 * ((t.1.proctab pid).prsem + 2)) := by
      refine ⟨hready, ?_, by omega⟩
      rw [hI.flags, ← hflags]
      exact hsig.1
    dsimp only
    generalize hg₂ : (g'.setLimbo fun p => p = pid ∨ g'.limbo p).pushFrame cur
      (.killSignaled pid) = g₂
    apply returns_signal hI hL hb hvictim hkills cur
    · rw [← hg₂]
      exact htab
    · rw [← hg₂]
      exact hlists
    · rw [← hg₂]
      exact hflags
  · rename_i hsig
    apply Returns.nothing
    · apply hvictim.out
      intro h
      have h1 := h.2.2
      have h2 := hb.1
      apply hsig
      refine ⟨?_, by omega⟩
      rw [hflags, ← hI.flags]
      exact h.2.1
    · intro hm
      rw [wait_of_mem hI hb hm] at hready
      cases hready
    · exact congrFun htab b
    · exact congrFun hlists _

/-- A waiting victim is in one queue. -/
theorem returns_wait (hI : Inv w g EMPTY t.1) (hb : ValidRwb b) (hlinked : t.1.Linked pid)
    (hvictim : Victim b t pid) (hwait : (t.1.proctab pid).prstate = .wait)
    (hprsem : (t.1.proctab pid).prsem < -1)
    (htab : g'.tab = g.tab) (hlists : g'.lists = g.lists) :
    Returns b pid t.2 g (g'.killWaiting pid (-1 * ((t.1.proctab pid).prsem + 2))) := by
  have hout : t.2.inside b pid = none := by
    apply hvictim.out
    intro h
    have hready := h.1
    rw [hwait] at hready
    cases hready
  have hhome : home (t.1.proctab pid) = some (rwq (-1 * ((t.1.proctab pid).prsem + 2))) := by
    rw [home_wait hwait]
    exact congrArg some (if_pos hprsem)
  by_cases hrwb : b = -1 * ((t.1.proctab pid).prsem + 2)
  · rw [← hrwb] at hhome ⊢
    have hmem := Linked.mem hlinked hhome
    rw [hI.lists_eq _ (rwq_ne_readylist hb)] at hmem
    apply Returns.place hout hmem
    · rw [← htab]
      exact (g'.setFlag pid 0).setRwb_at b fun e => { e with qcount := e.qcount - 1 }
    · rw [← hlists]
      exact View.unqueue_at _ _ _
  · apply Returns.nothing hout
    · intro hm
      rw [← hI.lists_eq _ (rwq_ne_readylist hb)] at hm
      have h := ((hI.mem_iff _ _).mp hm).1
      rw [hhome] at h
      exact hrwb (rwq_inj (Option.some.inj h)).symm
    · rw [← htab]
      exact upd_of_ne hrwb
    · rw [← hlists]
      exact upd_of_ne fun h => hrwb (rwq_inj h)

theorem returns_killState (hI : Inv w g EMPTY t.1) (hL : Ledger b g t.2) (hb : ValidRwb b)
    (hlinked : t.1.Linked pid) (hvictim : Victim b t pid) (cur : Int)
    (htab : g'.tab = g.tab) (hlists : g'.lists = g.lists) (hflags : g'.flags = g.flags) :
    Returns b pid t.2 g
      (g'.killState cur pid (t.1.proctab pid).prstate (t.1.proctab pid).prsem) := by
  -- a victim that is neither ready nor in the queue of a blocker
  have hplain : (t.1.proctab pid).prstate ≠ .ready →
      home (t.1.proctab pid) ≠ some (rwq b) → ∀ g₂ : View, g₂.tab = g.tab →
      g₂.lists (rwq b) = g.lists (rwq b) → Returns b pid t.2 g g₂ := by
    intro hstate hhome g₂ htab₂ hlists₂
    apply Returns.nothing (hvictim.out fun h => hstate h.1) ?_ (congrFun htab₂ b) hlists₂
    intro hm
    rw [← hI.lists_eq _ (rwq_ne_readylist hb)] at hm
    exact hhome ((hI.mem_iff _ _).mp hm).1
  have hsleep : home (t.1.proctab pid) = some sleepq →
      home (t.1.proctab pid) ≠ some (rwq b) := by
    intro h
    rw [h]
    exact fun he => rwq_ne_sleepq hb (Option.some.inj he).symm
  have hoff : home (t.1.proctab pid) = none → home (t.1.proctab pid) ≠ some (rwq b) := by
    intro h
    rw [h]
    exact fun he => by cases he
  unfold View.killState
  cases hstate : (t.1.proctab pid).prstate with
  | ready => exact returns_ready hI hL hb hvictim hstate cur htab hlists hflags
  | wait =>
      dsimp only
      split
      · rename_i hprsem
        exact returns_wait hI hb hlinked hvictim hstate hprsem htab hlists
      · rename_i hprsem
        have hsem := (hI.waits_on pid hstate).resolve_right fun h => hprsem h.1
        apply hplain
        · rw [hstate]
          exact fun h => by cases h
        · rw [home_wait hstate, waitq_sem hsem]
          exact fun h => semq_ne_rwq hsem hb (Option.some.inj h)
        · exact htab
        · rw [← hlists]
          exact upd_of_ne (semq_ne_rwq hsem hb).symm
  | sleep =>
      refine hplain (by rw [hstate]; exact fun h => by cases h)
        (hsleep (home_sleep (Or.inl hstate))) ((g'.unqueue sleepq pid).setLive pid False) htab ?_
      rw [← hlists]
      exact upd_of_ne (rwq_ne_sleepq hb)
  | rectim =>
      refine hplain (by rw [hstate]; exact fun h => by cases h)
        (hsleep (home_sleep (Or.inr hstate))) ((g'.unqueue sleepq pid).setLive pid False) htab ?_
      rw [← hlists]
      exact upd_of_ne (rwq_ne_sleepq hb)
  | free =>
      exact hplain (by rw [hstate]; exact fun h => by cases h) (hoff (home_free hstate)) _ htab
        (congrFun hlists _)
  | curr =>
      exact hplain (by rw [hstate]; exact fun h => by cases h) (hoff (home_curr hstate)) _ htab
        (congrFun hlists _)
  | recv =>
      exact hplain (by rw [hstate]; exact fun h => by cases h) (hoff (home_recv hstate)) _ htab
        (congrFun hlists _)
  | susp =>
      exact hplain (by rw [hstate]; exact fun h => by cases h) (hoff (home_susp hstate)) _ htab
        (congrFun hlists _)

/-!
## Runs
-/

theorem fair_books
    (h : Reach bookedStep (fun t l => FairCalls t l ∧ VictimsKnown t l) BookedBoot t) :
    ∃ g, Good .plain g t.1 ∧ ∀ b, ValidRwb b → Ledger b g t.2 := by
  apply h.invariant
  · rintro t ⟨⟨mem, rand, hs⟩, hk⟩
    refine ⟨bootView, ?_, ?_⟩
    · rw [hs]
      exact sysinit_good .plain mem rand
    · intro b _
      rw [hk]
      exact ledger_boot b
  · rintro t l t' _ ⟨g, hG, hL⟩ ⟨⟨hcalls, hfair⟩, hlinked, hknown⟩ hstep
    rcases booked_step hG hcalls hlinked hstep with ⟨g', hG', _, hledger⟩
    refine ⟨g', hG', ?_⟩
    intro b hb
    have hmem := mem_allRwbs.mpr hb
    rcases hknown b hmem with ⟨hflag, hleave, hkill⟩
    exact (hledger b hb (hL b hb) (hfair b hmem) hflag hleave hkill).ledger

theorem insidersLive_of_books (hI : Inv w g EMPTY t.1)
    (hL : ∀ b, ValidRwb b → Ledger b g t.2) : InsidersLive t := by
  intro b hbad hcount
  have hLb := hL b (not_isbadrwb_iff.mp hbad).1
  rw [hI.tab] at hcount
  rcases hLb.inside_of_count hcount with ⟨p, hp⟩
  have hable := hLb.active p (Or.inl hp)
  exact ⟨p, mem_allPids.mpr hable.valid, hp, (hI.live p).mp hable.live⟩

theorem givesBack_of_returns (hI : Inv w g EMPTY t.1) (hI' : Inv w g' EMPTY s')
    (h : ∀ b, ValidRwb b → Returns b pid t.2 g g') : GivesBack t pid s' := by
  constructor
  · intro b hb
    rw [hI.tab, hI'.tab]
    exact (h b hb).share
  · intro b hb hout
    rw [waiters_eq hI hb, waiters_eq hI' hb, hI.tab, hI'.tab]
    exact (h b hb).outside hout
  · intro b hb hin
    rw [waiters_eq hI hb, waiters_eq hI' hb, hI.tab, hI'.tab]
    exact (h b hb).inside hin

/-- In every run whose victims are known, no count outlives its processes, and
each killed process gives back what it holds. -/
theorem kill_gives_back
    (h : Reach bookedStep (fun t l => FairCalls t l ∧ VictimsKnown t l) BookedBoot t) :
    InsidersLive t ∧ ∀ pid t', FairCalls t .cont → VictimsKnown t .cont →
      t.1.victim = some pid → bookedStep t .cont = some t' → GivesBack t pid t'.1 := by
  rcases fair_books h with ⟨g, hG, hL⟩
  have hI := hG.ok.inv
  refine ⟨insidersLive_of_books hI hL, ?_⟩
  intro pid t' hfair hknown hv hstep
  rcases booked_step hG hfair.1 hknown.1 hstep with ⟨g', hG', hm, _⟩
  apply givesBack_of_returns hI hG'.ok.inv
  intro b hb
  have hvictim := (hknown.2 b (mem_allRwbs.mpr hb)).2.2.victim hv
  have hlinked := hknown.1.victim rfl pid hv
  cases hm with
  | keep hl h =>
      have hnone : t.1.victim = none := hl
      rw [hnone] at hv
      cases hv
  | writer hs hnone =>
      rw [hnone] at hv
      cases hv
  | reader hs hnone =>
      rw [hnone] at hv
      cases hv
  | @killSent pid' rest hs hv' =>
      rw [hv'] at hv
      cases hv
      exact returns_killState hI (hL b hb) hb hlinked hvictim _ rfl rfl rfl
  | killSignaled hs hnone =>
      rw [hnone] at hv
      cases hv

end

/-- A reader that was released from the queue is killed while it is ready. -/
theorem kill_gives_back_released : ∃ t t' : Xinu × Books,
    t.2.inside 0 2 = some .reader ∧ InsidersLive t ∧ GivesBack t 2 t'.1 := by
  rcases exists_reach_of_follow bookedStep
    (fun t l => FairCalls t l ∧ VictimsKnown t l) bookedBoot_sample
    [.call (.create 4096 20), .call (.resume 1), .call (.rwbcreate 0), .call (.rwbTrywrite 0),
      .call (.create 4096 30), .call (.resume 2), .call (.rwbTryread 0), .cont,
      .call (.chprio 2 10), .call (.signalrwb 0), .cont, .call (.kill 2)]
    (fun t => t.2.inside 0 2 = some .reader ∧ (FairCalls t .cont ∧ VictimsKnown t .cont) ∧
      t.1.victim = some 2 ∧ (bookedStep t .cont).isSome = true)
    (by decide +kernel) with ⟨t, ht, hin, ⟨hfair, hknown⟩, hv, hsome⟩
  rcases Option.isSome_iff_exists.mp hsome with ⟨t', hstep⟩
  have hgives := kill_gives_back ht
  exact ⟨t, t', hin, hgives.1, hgives.2 2 t' hfair hknown hv hstep⟩

/-- A reader that entered at once leaves its share behind when it is killed. -/
theorem killed_reader_counted :
    ¬ ∀ t, Reach bookedStep FairCalls BookedBoot t → InsidersLive t := by
  intro h
  rcases exists_reach_of_follow bookedStep FairCalls bookedBoot_sample
    [.call (.create 4096 20), .call (.resume 1), .call (.rwbcreate 0), .call (.create 4096 20),
      .call (.resume 2), .call (.rwbTryread 0), .call .yield, .cont, .call (.kill 2), .cont]
    (fun t => (¬ t.1.isbadrwb 0 ∧ (t.1.rwbtab 0).rwcount ≠ 0) ∧ t.2.Vacant 0)
    (by decide +kernel) with ⟨t, ht, ⟨hbad, hcount⟩, hvacant⟩
  rcases h t ht 0 hbad hcount with ⟨p, hp, hin, _⟩
  exact hin (hvacant p hp)

end BbbXinu
