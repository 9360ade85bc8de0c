import BbbXinu.Properties.ManyBlockers

/-!
# Sessions on one blocker

Each process enters the blocker, signals it and may come back; in between it
touches no other blocker.  Its flag is then that of its role for as long as it
is inside, so only half-finished signals can spoil the count.
-/

namespace BbbXinu

open LinkedLists KeyedLists Runs

/-- Processes enter the blocker and then signal it, without a call on another
blocker in between.  Nobody is killed, and the blocker is made with a count of 0
and neither deleted nor reset. -/
def Sessions (b : Int) (t : Xinu × Books) : Label → Prop
  | .call (.rwbTryread _) | .call (.rwbTrywrite _) => t.2.inside b t.1.currpid = none
  | .call (.signalrwb rwb) => rwb = b ↔ t.2.inside b t.1.currpid ≠ none
  | .call (.rwbcreate count) => t.1.newrwb.1 = b → count = 0
  | .call (.rwbdelete rwb) | .call (.rwbreset rwb _) => rwb ≠ b
  | .call (.kill _) => False
  | _ => True

instance (b : Int) (t : Xinu × Books) (l : Label) : Decidable (Sessions b t l) :=
  match l with
  | .call c => by induction c using Call.casesOn <;> unfold Sessions <;> infer_instance
  | .cont => inferInstanceAs (Decidable True)

/-- Whoever is inside has the flag of its role and waits nowhere. -/
structure Worn (b : Int) (g : View) (k : Books) : Prop where
  flag : ∀ p r, k.inside b p = some r → g.flags p = r.flag
  free : ∀ p b', ValidRwb b' → k.inside b p ≠ none → p ∉ g.lists (rwq b')

section

variable {w : Watch} {g g' : View} {t t' : Xinu × Books} {s s' : Xinu} {k k₁ : Books}
  {b p pid thisid rwb : Int} {r : Role} {l : Label}

theorem Sessions.fair (h : Sessions b t l) : Fair b t l := by
  cases l with
  | cont => trivial
  | call c =>
      cases c with
      | rwbTryread rwb => exact fun _ => h
      | rwbTrywrite rwb => exact fun _ => h
      | signalrwb rwb => exact fun hb => h.mp hb
      | rwbcreate count => exact h
      | rwbdelete rwb => exact fun hb => absurd hb h
      | rwbreset rwb count => exact fun hb => absurd hb h
      | _ => trivial

theorem Sessions.killsNobody (h : Sessions b t l) : KillsNobody l := by
  cases l with
  | cont => trivial
  | call c =>
      cases c with
      | kill pid => exact h
      | _ => trivial

/-!
## Flags
-/

/-- Whoever leaves the queue has the flag of the role in which it waited. -/
theorem Worn.releases (hI : Inv w g EMPTY s) (hI' : Inv w g' EMPTY s') (hb : ValidRwb b)
    (hflag : ∀ p r, k.inside b p = some r → g'.flags p = r.flag)
    (hfree : ∀ p b', ValidRwb b' → k.inside b p ≠ none → p ∉ g'.lists (rwq b'))
    (hleft : ∀ p ∈ g.lists (rwq b), p ∉ g'.lists (rwq b) →
      g'.flags p = (k.want p).flag ∧ ∀ b', ValidRwb b' → p ∉ g'.lists (rwq b')) :
    Worn b g' (k.releases s s') := by
  have hin := releases_inside hI hI' hb k
  constructor
  · intro p r hp
    rw [hin] at hp
    split at hp
    · rename_i hleft'
      rw [← Option.some.inj hp]
      exact (hleft p hleft'.1 hleft'.2).1
    · exact hflag p r hp
  · intro p b' hb' hp
    rw [hin] at hp
    split at hp
    · rename_i hleft'
      exact (hleft p hleft'.1 hleft'.2).2 b' hb'
    · exact hfree p b' hb' hp

/-- The queues only shrink, and nobody comes in but from the queue. -/
theorem Worn.shrink (hW : Worn b g k) (hL : Ledger b g k) (hI : Inv w g EMPTY s)
    (hI' : Inv w g' EMPTY s') (hb : ValidRwb b)
    (hsub : ∀ b', ValidRwb b' → ∀ p ∈ g'.lists (rwq b'), p ∈ g.lists (rwq b'))
    (hin : ∀ p, k₁.inside b p = none ∨ k₁.inside b p = k.inside b p) (hwant : k₁.want = k.want)
    (hflags : ∀ p, k₁.inside b p ≠ none ∨ p ∈ g.lists (rwq b) → g'.flags p = g.flags p) :
    Worn b g' (k₁.releases s s') := by
  have hold : ∀ p, k₁.inside b p ≠ none → k₁.inside b p = k.inside b p :=
    fun p hp => (hin p).resolve_left hp
  apply Worn.releases hI hI' hb
  · intro p r hp
    have hne : k₁.inside b p ≠ none := by
      rw [hp]
      exact fun h => by cases h
    rw [hflags p (Or.inl hne)]
    exact hW.flag p r ((hold p hne).symm.trans hp)
  · intro p b' hb' hp hmem
    apply hW.free p b' hb' ?_ (hsub b' hb' p hmem)
    rw [← hold p hp]
    exact hp
  · intro p hp hleft
    constructor
    · rw [hflags p (Or.inr hp), hwant]
      exact (hL.waiting p hp).1
    · intro b' hb' hmem
      have hbb := waiting_unique hI hb hb' hp (hsub b' hb' p hmem)
      rw [← hbb] at hmem
      exact hleft hmem

theorem Releases.sub (hr : Releases g pid thisid rwb g') (b' : Int) (p : Int)
    (hp : p ∈ g'.lists (rwq b')) : p ∈ g.lists (rwq b') := by
  have hpop : ∀ after : Frame, p ∈ (g.release pid rwb after).lists (rwq b') →
      p ∈ g.lists (rwq b') := by
    intro after hp
    by_cases hne : b' = rwb
    · rw [hne] at hp ⊢
      rw [View.release_queue] at hp
      exact List.mem_of_mem_tail hp
    · rw [(View.local_release g pid rwb after).lists _ fun h => hne (rwq_inj h)] at hp
      exact hp
  cases hr with
  | none => exact hp
  | writer => exact hpop _ hp
  | reader => exact hpop _ hp

theorem tries_inside (hbad : ¬ s.isbadrwb rwb) (c : Call) (b q : Int) :
    (k.tries s rwb r c).inside b q = k.inside b q ∨
      (k.tries s rwb r c).inside b q = some r ∧ q = s.currpid ∧ ¬ s.blocks c := by
  by_cases hne : b = rwb
  · cases hne
    by_cases hblock : s.blocks c
    · exact Or.inl (tries_block hbad hblock r q)
    · have henter := tries_enter (k := k) hbad hblock r
      by_cases hq : q = s.currpid
      · rw [hq]
        exact Or.inr ⟨henter.1, rfl, hblock⟩
      · exact Or.inl (henter.2 q hq)
  · exact Or.inl (tries_inside_of_ne hne c r q)

/-- A try of a process that is outside. -/
theorem Worn.try {c : Call} (hW : Worn b g t.2) (hG : Good w g t.1)
    (hI' : Inv w g' EMPTY s') (hb : ValidRwb b) (hbad : ¬ t.1.isbadrwb rwb)
    (hout : t.2.inside b t.1.currpid = none) (hflags : g'.flags = upd g.flags t.1.currpid r.flag)
    (hkeep : ∀ b', ∀ p ∈ g.lists (rwq b'), p ∈ g'.lists (rwq b'))
    (hgrow : ∀ b', ∀ p ∈ g'.lists (rwq b'), p ∈ g.lists (rwq b') ∨
      p = t.1.currpid ∧ t.1.blocks c) :
    Worn b g' ((t.2.tries t.1 rwb r c).releases t.1 s') := by
  have hne : ∀ p, t.2.inside b p ≠ none → p ≠ t.1.currpid := by
    rintro p hp rfl
    exact hp hout
  apply Worn.releases hG.ok.inv hI' hb
  · intro p r' hp
    rw [hflags]
    rcases tries_inside hbad c b p with h | ⟨h, hcur, _⟩
    · rw [h] at hp
      rw [upd_of_ne (hne p (by rw [hp]; exact fun h => by cases h))]
      exact hW.flag p r' hp
    · rw [h] at hp
      rw [hcur, upd_self, Option.some.inj hp]
  · intro p b' hb' hp hmem
    rcases tries_inside hbad c b p with h | ⟨_, hcur, henter⟩
    · rw [h] at hp
      rcases hgrow b' p hmem with hmem | ⟨hcur, _⟩
      · exact hW.free p b' hb' hp hmem
      · exact hne p hp hcur
    · rcases hgrow b' p hmem with hmem | ⟨_, hblock⟩
      · rw [hcur] at hmem
        exact curr_not_waiting hG hb' hmem
      · exact henter hblock
  · exact fun p hp hleft => absurd (hkeep b p hp) hleft

theorem tryread_lists (g : View) (pid rwb b' : Int) (p : Int) :
    (p ∈ g.lists (rwq b') → p ∈ (g.tryread pid rwb).lists (rwq b')) ∧
      (p ∈ (g.tryread pid rwb).lists (rwq b') → p ∈ g.lists (rwq b') ∨
        p = pid ∧ ((g.tab rwb).rwcount < 0 ∨ 0 < (g.tab rwb).qcount)) := by
  by_cases hne : b' = rwb
  · rw [hne]
    rcases View.tryread_cases g pid rwb with ⟨hblock, heq⟩ | ⟨_, heq⟩
    · rw [heq, View.block_queue, List.mem_append, List.mem_singleton]
      exact ⟨Or.inl, Or.imp id fun h => ⟨h, hblock⟩⟩
    · rw [heq]
      exact ⟨id, Or.inl⟩
  · rw [(View.local_tryread g pid rwb).lists _ fun h => hne (rwq_inj h)]
    exact ⟨id, Or.inl⟩

theorem trywrite_lists (g : View) (pid rwb b' : Int) (p : Int) :
    (p ∈ g.lists (rwq b') → p ∈ (g.trywrite pid rwb).lists (rwq b')) ∧
      (p ∈ (g.trywrite pid rwb).lists (rwq b') → p ∈ g.lists (rwq b') ∨
        p = pid ∧ ((g.tab rwb).rwcount ≠ 0 ∨ 0 < (g.tab rwb).qcount)) := by
  by_cases hne : b' = rwb
  · rw [hne]
    rcases View.trywrite_cases g pid rwb with ⟨hblock, heq⟩ | ⟨_, heq⟩
    · rw [heq, View.block_queue, List.mem_append, List.mem_singleton]
      exact ⟨Or.inl, Or.imp id fun h => ⟨h, hblock⟩⟩
    · rw [heq]
      exact ⟨id, Or.inl⟩
  · rw [(View.local_trywrite g pid rwb).lists _ fun h => hne (rwq_inj h)]
    exact ⟨id, Or.inl⟩

theorem signalReader_sub (g : View) (pid thisid rwb b' p : Int)
    (hp : p ∈ (g.signalReader pid thisid rwb).lists (rwq b')) : p ∈ g.lists (rwq b') := by
  unfold View.signalReader at hp
  dsimp only at hp
  rcases signalReaders_releases (g.setRwb rwb fun e => { e with rwcount := e.rwcount + 1 }) pid
    thisid rwb with ⟨n, rest, hqueue, hflag, heq⟩ | ⟨_, heq⟩
  · rw [heq] at hp
    exact Releases.sub (.reader hqueue hflag) b' p hp
  · rw [heq] at hp
    exact hp

/-- Every step of a session keeps the flags of whoever is inside. -/
theorem Worn.blockMove (hW : Worn b g t.2) (hL : Ledger b g t.2) (hunkilled : Unkilled g)
    (hG : Good w g t.1) (hI' : Inv w g' EMPTY s') (hb : ValidRwb b) (hsession : Sessions b t l)
    (hm : g.BlockMove t.1 l g') : Worn b g' (t.2.record t.1 l s') := by
  have hI := hG.ok.inv
  -- a step that changes neither flags nor books itself
  have hplain : (∀ b', ValidRwb b' → ∀ p ∈ g'.lists (rwq b'), p ∈ g.lists (rwq b')) →
      (∀ p, t.2.inside b p ≠ none ∨ p ∈ g.lists (rwq b) → g'.flags p = g.flags p) →
      Worn b g' (t.2.releases t.1 s') :=
    fun hsub hflags => hW.shrink hL hI hI' hb hsub (fun _ => Or.inr rfl) rfl hflags
  cases hm with
  | keep hl h =>
      rw [record_off hl]
      apply hplain
      · intro b' hb' p hp
        rw [h.lists b' hb'] at hp
        exact hp
      · intro p _
        rw [h.flags]
  | born hdead hpid => exact hplain (fun _ _ _ h => h) fun _ _ => rfl
  | kill hnull h => exact absurd hsession id
  | create hcount hvalid hfree => exact hplain (fun _ _ _ h => h) fun _ _ => rfl
  | @delete rwb hu =>
      apply hplain
      · intro b' _ p hp
        by_cases hne : b' = rwb
        · rw [hne] at hp ⊢
          rw [View.delete_queue] at hp
          exact List.mem_of_mem_drop hp
        · rw [(View.local_delete g rwb).lists _ fun h => hne (rwq_inj h)] at hp
          exact hp
      · intro p hp
        apply View.delete_flags
        rcases hp with hp | hp
        · exact hW.free p rwb hu.1 hp
        · exact fun hp' => hsession (waiting_unique hI hu.1 hb hp' hp)
  | @reset rwb count hcount hu =>
      apply hplain
      · intro b' _ p hp
        by_cases hne : b' = rwb
        · rw [hne, View.reset_queue] at hp
          cases hp
        · rw [(View.local_reset g rwb count).lists _ fun h => hne (rwq_inj h)] at hp
          exact hp
      · intro p _
        rw [View.reset_flags]
  | @tryread rwb hu =>
      have hbad := (usable_iff hI rwb).mp hu
      have hlists := tryread_lists g t.1.currpid rwb
      refine hW.try (r := .reader) hG hI' hb hbad hsession (tryread_flags g _ rwb)
        (fun b' p => (hlists b' p).1) fun b' p hp => ((hlists b' p).2 hp).imp id ?_
      rintro ⟨hcur, hblock⟩
      rw [← hI.tab] at hblock
      exact ⟨hcur, hbad, hblock⟩
  | @trywrite rwb hu =>
      have hbad := (usable_iff hI rwb).mp hu
      have hlists := trywrite_lists g t.1.currpid rwb
      refine hW.try (r := .writer) hG hI' hb hbad hsession (trywrite_flags g _ rwb)
        (fun b' p => (hlists b' p).1) fun b' p hp => ((hlists b' p).2 hp).imp id ?_
      rintro ⟨hcur, hblock⟩
      rw [← hI.tab] at hblock
      exact ⟨hcur, hbad, hblock⟩
  | @signal rwb hu =>
      have hbad := (usable_iff hI rwb).mp hu
      rcases leaves_inside (k := t.2) hbad with ⟨hout, hin, hother, hwant⟩
      have hr := signalNext_releases ((g.setFlag t.1.currpid 0).setRwb rwb fun e =>
        { e with rwcount := if g.flags t.1.currpid = -1 then e.rwcount + 1 else e.rwcount - 1 })
        t.1.currpid t.1.currpid rwb
      have hcur : (t.2.leaves t.1 rwb).inside b t.1.currpid = none := by
        by_cases hne : b = rwb
        · rw [hne]
          exact hout
        · rw [hother b hne]
          exact not_not.mp fun h => hne (hsession.mpr h).symm
      apply hW.shrink hL hI hI' hb
      · exact fun b' _ p hp => hr.sub b' p hp
      · intro p
        by_cases hne : b = rwb
        · by_cases hp : p = t.1.currpid
          · rw [hp]
            exact Or.inl hcur
          · rw [hne]
            exact Or.inr (hin p hp)
        · rw [hother b hne]
          exact Or.inr rfl
      · exact hwant
      · intro p hp
        have hne : p ≠ t.1.currpid := by
          rintro rfl
          rcases hp with hp | hp
          · exact hp hcur
          · exact curr_not_waiting hG hb hp
        show (View.signalNext _ _ _ _).flags p = _
        rw [hr.flags]
        exact upd_of_ne hne
  | writer hs hv =>
      rw [record_cont hv]
      exact hplain (fun _ _ _ h => h) fun _ _ => rfl
  | @reader thisid rwb rest hs hv =>
      rw [record_cont hv]
      apply hplain
      · exact fun b' _ p hp => signalReader_sub (g.setFrames t.1.currpid rest)
          t.1.currpid thisid rwb b' p hp
      · intro p _
        rw [signalReader_flags]
        rfl
  | killSent hs hv =>
      rw [hunkilled.victim hI] at hv
      cases hv
  | @killSignaled pid rest hs hv =>
      have hkills := hunkilled.frames t.1.currpid (.killSignaled pid) (by
        rw [hs]
        exact List.mem_cons_self)
      cases hkills

/-- The flag that a signal reads is that of its caller's role. -/
theorem Worn.flagFits (hW : Worn b g t.2) (hI : Inv w g EMPTY t.1) (hsession : Sessions b t l) :
    FlagFits b t l := by
  cases l with
  | cont => trivial
  | call c =>
      cases c with
      | signalrwb rwb =>
          intro hb
          cases hr : t.2.inside b t.1.currpid with
          | none => exact absurd hr (hsession.mp hb)
          | some r =>
              rw [hI.flags, hW.flag _ r hr]
              rfl
      | _ => trivial

/-!
## Entries never used
-/

theorem Releases.rwstate (hr : Releases g pid thisid rwb g') :
    (g'.tab rwb).rwstate = (g.tab rwb).rwstate := by
  cases hr with
  | none => rfl
  | writer => rw [View.release_tab]
  | reader => rw [View.release_tab]

theorem tryread_rwstate (g : View) (pid rwb : Int) :
    ((g.tryread pid rwb).tab rwb).rwstate = (g.tab rwb).rwstate := by
  rcases View.tryread_cases g pid rwb with ⟨_, heq⟩ | ⟨_, heq⟩
  · rw [heq, View.block_tab]
    rfl
  · rw [heq, View.setRwb_at]
    rfl

theorem trywrite_rwstate (g : View) (pid rwb : Int) :
    ((g.trywrite pid rwb).tab rwb).rwstate = (g.tab rwb).rwstate := by
  rcases View.trywrite_cases g pid rwb with ⟨_, heq⟩ | ⟨_, heq⟩
  · rw [heq, View.block_tab]
    rfl
  · rw [heq, View.setRwb_at]
    rfl

theorem signalrwb_rwstate (g : View) (pid thisid rwb : Int) :
    ((g.signalrwb pid thisid rwb).tab rwb).rwstate = (g.tab rwb).rwstate := by
  have hr := signalNext_releases ((g.setFlag thisid 0).setRwb rwb fun e =>
    { e with rwcount := if g.flags thisid = -1 then e.rwcount + 1 else e.rwcount - 1 })
    pid thisid rwb
  refine hr.rwstate.trans ?_
  rw [View.setRwb_at]
  rfl

/-- A free entry has an empty queue. -/
def Fresh (g : View) (b : Int) : Prop := (g.tab b).rwstate = .free → (g.tab b).qcount = 0

theorem Fresh.of_local (hF : Fresh g b) (hl : View.Local rwb g g')
    (hused : b = rwb → (g'.tab b).rwstate ≠ .free) : Fresh g' b := by
  by_cases hne : b = rwb
  · exact fun hf => absurd hf (hused hne)
  · unfold Fresh
    rw [hl.tab b hne]
    exact hF

theorem Fresh.signalReader (hF : Fresh g b) (hC : Counts g b) :
    Fresh (g.signalReader pid thisid b) b := by
  have h₁ : Fresh (g.setRwb b fun e => { e with rwcount := e.rwcount + 1 }) b := by
    unfold Fresh
    rw [View.setRwb_at]
    exact hF
  unfold View.signalReader
  dsimp only
  rcases signalReaders_releases (g.setRwb b fun e => { e with rwcount := e.rwcount + 1 })
    pid thisid b with ⟨n, rest, hqueue, _, heq⟩ | ⟨_, heq⟩
  · rw [heq]
    intro hf
    rw [View.release_tab, View.setRwb_at] at hf
    have hnil : g.lists (rwq b) = n :: rest := hqueue
    rw [hC.free hf] at hnil
    cases hnil
  · rw [heq]
    exact h₁

theorem Fresh.blockMove {s : Xinu} (hF : Fresh g b) (hC : Counts g b) (hunkilled : Unkilled g)
    (hI : Inv w g EMPTY s) (hdelete : l ≠ .call (.rwbdelete b))
    (hm : g.BlockMove s l g') : Fresh g' b := by
  cases hm with
  | keep hl h =>
      unfold Fresh
      rw [h.tab]
      exact hF
  | born hdead hpid => exact hF
  | kill hnull h =>
      unfold Fresh
      rw [h.tab]
      exact hF
  | create hcount hvalid hfree =>
      apply hF.of_local (View.local_create g _ _)
      intro hb
      rw [hb, View.create_tab]
      exact fun h => by cases h
  | @delete rwb hu =>
      apply hF.of_local (View.local_delete g rwb)
      rintro rfl
      exact absurd rfl hdelete
  | @reset rwb count hcount hu =>
      apply hF.of_local (View.local_reset g rwb count)
      rintro rfl
      rw [View.reset_tab]
      exact hu.2
  | @tryread rwb hu =>
      apply hF.of_local (View.local_tryread g _ rwb)
      rintro rfl
      rw [tryread_rwstate]
      exact hu.2
  | @trywrite rwb hu =>
      apply hF.of_local (View.local_trywrite g _ rwb)
      rintro rfl
      rw [trywrite_rwstate]
      exact hu.2
  | @signal rwb hu =>
      apply hF.of_local (signalrwb_local g _ _ rwb)
      rintro rfl
      rw [signalrwb_rwstate]
      exact hu.2
  | @writer thisid rwb rest hs hv =>
      by_cases hne : b = rwb
      · cases hne
        unfold Fresh View.signalWriter
        rw [View.setRwb_at]
        exact hF
      · unfold Fresh View.signalWriter
        rw [(View.local_setRwb (g.setFrames s.currpid rest) rwb _).tab b hne]
        exact hF
  | @reader thisid rwb rest hs hv =>
      have hF₁ : Fresh (g.setFrames s.currpid rest) b := hF
      have hC₁ : Counts (g.setFrames s.currpid rest) b := hC.congr rfl rfl
      by_cases hne : b = rwb
      · cases hne
        exact hF₁.signalReader hC₁
      · unfold Fresh
        rw [(signalReader_local (g.setFrames s.currpid rest) s.currpid thisid rwb).tab b hne]
        exact hF
  | killSent hs hv =>
      rw [hunkilled.victim hI] at hv
      cases hv
  | @killSignaled pid rest hs hv =>
      have hkills := hunkilled.frames s.currpid (.killSignaled pid) (by
        rw [hs]
        exact List.mem_cons_self)
      cases hkills

/-!
## Runs of sessions
-/

/-- What holds of the blocker along a run of sessions. -/
structure SessionView (b : Int) (g : View) (k : Books) : Prop where
  unkilled : Unkilled g
  ledger : Ledger b g k
  worn : Worn b g k
  apart : Apart b k
  counts : Counts g b
  fresh : Fresh g b
  awake : Awake b g

/-- Nobody enters or signals the blocker while a signal on it is half finished. -/
def SignalsAlone (b : Int) (t : Xinu × Books) (l : Label) : Prop :=
  EntersSettled b t l ∧ LeavesSettled b t l

instance (b : Int) (t : Xinu × Books) (l : Label) : Decidable (SignalsAlone b t l) :=
  inferInstanceAs (Decidable (_ ∧ _))

/-- Any number of processes in sessions, among any other calls. -/
def SessionCalls (b : Int) (t : Xinu × Books) (l : Label) : Prop :=
  AnyCalls t.1 l ∧ Sessions b t l

instance (b : Int) (t : Xinu × Books) (l : Label) : Decidable (SessionCalls b t l) :=
  inferInstanceAs (Decidable (_ ∧ _))

theorem sessionView_boot (b : Int) : SessionView b bootView Books.empty where
  unkilled := unkilled_boot
  ledger := ledger_boot b
  worn := by
    constructor
    · exact fun _ _ h => by cases h
    · exact fun _ _ _ h => absurd rfl h
  apart := fun _ _ h => by cases h
  counts := counts_boot b
  fresh := fun _ => rfl
  awake := fun _ _ _ h => by cases h

theorem session_view (hb : ValidRwb b)
    (h : Reach bookedStep (fun t l => SessionCalls b t l ∧ SignalsAlone b t l) BookedBoot t) :
    ∃ g, Good .plain g t.1 ∧ SessionView b g t.2 := by
  apply h.invariant
  · rintro t ⟨⟨mem, rand, hs⟩, hk⟩
    refine ⟨bootView, ?_, ?_⟩
    · rw [hs]
      exact sysinit_good .plain mem rand
    · rw [hk]
      exact sessionView_boot b
  · rintro t l t' _ ⟨g, hG, hV⟩ ⟨⟨hcalls, hsession⟩, henters, hleaves⟩ hstep
    have hI := hG.ok.inv
    have hlinked := hV.unkilled.findsLinked hI l
    rcases booked_step hG hcalls hlinked hstep with ⟨g', hG', hm, hledger⟩
    have hnext := hledger b hb hV.ledger hsession.fair (hV.worn.flagFits hI hsession) hleaves
      (hV.unkilled.killFits hI b l)
    refine ⟨g', hG', ?_⟩
    constructor
    · exact hV.unkilled.blockMove hI hsession.killsNobody hm
    · exact hnext.ledger
    · rw [(observed_eq hstep).2]
      exact hV.worn.blockMove hV.ledger hV.unkilled hG hG'.ok.inv hb hsession hm
    · exact hnext.apart henters hV.apart
    · exact Counts.blockMove hI hb hlinked.victim (fun _ _ _ => hV.fresh) hm hV.counts
    · refine hV.fresh.blockMove hV.counts hV.unkilled hI ?_ hm
      rintro rfl
      exact hsession rfl
    · exact hnext.awake (hV.unkilled.victim hI) hV.apart hV.counts hV.awake

end

/-!
## Exclusion and wakeups

{lit}`ready` can switch to a released process before {lit}`_signalrwb` has counted
it in.  A run in which nobody enters or signals the blocker in that time keeps
writers alone and wakes whoever can go on.
-/

/-- A waiting process waits for somebody inside, and while readers are inside the
first in the queue is a writer. -/
structure Awaits (b : Int) (t : Xinu × Books) : Prop where
  count : t.1.waiters b ≠ [] → (t.1.rwbtab b).rwcount ≠ 0
  writer : ∀ n rest, t.1.waiters b = n :: rest → 0 < (t.1.rwbtab b).rwcount →
    t.2.want n = .writer
  inside : t.1.waiters b ≠ [] → ∃ p, t.2.inside b p ≠ none

section

variable {w : Watch} {g : View} {t : Xinu × Books} {k : Books} {b : Int}

/-- A balance other than 0 is somebody's. -/
theorem Ledger.inside_of_count (h : Ledger b g k) (hcount : (g.tab b).rwcount ≠ 0) :
    ∃ p, k.inside b p ≠ none := by
  by_contra hnone
  have hvacant : ∀ p, k.inside b p = none :=
    fun p => not_not.mp fun hp => hnone ⟨p, hp⟩
  apply hcount
  rw [h.count_of_settled (h.settled_of_vacant hvacant), weight_vacant hvacant]

theorem SessionView.awaits (hV : SessionView b g t.2) (hI : Inv w g EMPTY t.1)
    (hb : ValidRwb b) (hs : t.1.Settled b) : Awaits b t := by
  have hawake := hV.awake ((settled_iff hI hV.ledger).mp hs)
  have hcount : t.1.waiters b ≠ [] → (g.tab b).rwcount ≠ 0 := by
    intro hne
    rw [waiters_eq hI hb] at hne
    rcases List.exists_cons_of_ne_nil hne with ⟨n, rest, hqueue⟩
    exact (hawake n rest hqueue).1
  constructor
  · rw [hI.tab]
    exact hcount
  · intro n rest hqueue hpos
    rw [waiters_eq hI hb] at hqueue
    rw [hI.tab] at hpos
    apply Role.flag_inj
    have hmem : n ∈ g.lists (rwq b) := by
      rw [hqueue]
      exact List.mem_cons_self
    exact (hV.ledger.waiting n hmem).1.symm.trans ((hawake n rest hqueue).2 hpos)
  · exact fun hne => hV.ledger.inside_of_count (hcount hne)

/-- In every run whose signals are left alone, a writer is alone inside. -/
theorem writer_alone (hb : ValidRwb b)
    (h : Reach bookedStep (fun t l => SessionCalls b t l ∧ SignalsAlone b t l) BookedBoot t) :
    Apart b t.2 := by
  rcases session_view hb h with ⟨g, _, hV⟩
  exact hV.apart

/-- In every such run nobody is left waiting, once no signal is half finished. -/
theorem no_wakeup_lost (hb : ValidRwb b)
    (h : Reach bookedStep (fun t l => SessionCalls b t l ∧ SignalsAlone b t l) BookedBoot t)
    (hs : t.1.Settled b) : Awaits b t := by
  rcases session_view hb h with ⟨g, hG, hV⟩
  exact hV.awaits hG.ok.inv hb hs

end

/-- A writer is inside and a reader waits. -/
theorem writer_alone_first : ∃ t : Xinu × Books,
    (t.2.inside 0 1 = some .writer ∧ t.1.waiters 0 = [2]) ∧ Apart 0 t.2 := by
  rcases exists_reach_of_follow bookedStep
    (fun t l => SessionCalls 0 t l ∧ SignalsAlone 0 t l) bookedBoot_sample
    [.call (.create 4096 20), .call (.resume 1), .call (.rwbcreate 0), .call (.rwbTrywrite 0),
      .call (.create 4096 30), .call (.resume 2), .call (.rwbTryread 0), .cont]
    (fun t => t.2.inside 0 1 = some .writer ∧ t.1.waiters 0 = [2])
    (by decide +kernel) with ⟨t, ht, hp⟩
  exact ⟨t, hp, writer_alone (by decide) ht⟩

/-- The reader released by process 1 signals before process 1 has counted it in,
and process 3 enters as a writer beside it. -/
theorem writer_joins_reader :
    ¬ ∀ b t, ValidRwb b → Reach bookedStep (SessionCalls b) BookedBoot t → Apart b t.2 := by
  intro h
  rcases exists_reach_of_follow bookedStep (SessionCalls 0) bookedBoot_sample
    [.call (.create 4096 20), .call (.resume 1), .call (.rwbcreate 0), .call (.rwbTrywrite 0),
      .call (.create 4096 30), .call (.resume 2), .call (.rwbTryread 0), .cont,
      .call (.signalrwb 0), .cont, .call (.create 4096 25), .call (.resume 3), .cont,
      .call .receive, .call (.rwbTrywrite 0)]
    (fun t => t.2.inside 0 3 = some .writer ∧ t.2.inside 0 2 ≠ none)
    (by decide +kernel) with ⟨t, ht, hwriter, hreader⟩
  have heq := h 0 t (by decide) ht 3 2 hwriter hreader
  exact absurd heq (by decide)

/-- A reader waits for a writer. -/
theorem no_wakeup_lost_first : ∃ t : Xinu × Books, t.1.waiters 0 = [2] ∧ Awaits 0 t := by
  rcases exists_reach_of_follow bookedStep
    (fun t l => SessionCalls 0 t l ∧ SignalsAlone 0 t l) bookedBoot_sample
    [.call (.create 4096 20), .call (.resume 1), .call (.rwbcreate 0), .call (.rwbTrywrite 0),
      .call (.create 4096 30), .call (.resume 2), .call (.rwbTryread 0), .cont]
    (fun t => t.1.Settled 0 ∧ t.1.waiters 0 = [2])
    (by decide +kernel) with ⟨t, ht, hs, hp⟩
  exact ⟨t, hp, no_wakeup_lost (by decide) ht hs⟩

/-- The released reader signals before process 1 has counted it in, so its own
signal leaves the count at -1 and process 3 queues for nobody. -/
theorem wakeup_lost :
    ¬ ∀ b t, ValidRwb b → Reach bookedStep (SessionCalls b) BookedBoot t →
      t.1.Settled b → Awaits b t := by
  intro h
  rcases exists_reach_of_follow bookedStep (SessionCalls 0) bookedBoot_sample
    [.call (.create 4096 20), .call (.resume 1), .call (.rwbcreate 0), .call (.rwbTrywrite 0),
      .call (.create 4096 30), .call (.resume 2), .call (.rwbTryread 0), .cont,
      .call (.signalrwb 0), .cont, .call (.signalrwb 0), .call (.create 4096 25),
      .call (.resume 3), .cont, .call .receive, .call (.rwbTrywrite 0), .cont]
    (fun t => (t.1.Settled 0 ∧ t.1.waiters 0 = [3]) ∧ (t.1.rwbtab 0).rwcount = 0)
    (by decide +kernel) with ⟨t, ht, ⟨hs, hqueue⟩, hcount⟩
  apply (h 0 t (by decide) ht hs).count ?_ hcount
  rw [hqueue]
  exact List.cons_ne_nil 3 []

end BbbXinu
