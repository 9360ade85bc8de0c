import BbbXinu.Properties.BookSteps

/-!
# Every move keeps the books
-/

namespace BbbXinu

open LinkedLists KeyedLists Runs

/-- {lit}`kill` takes the victim for a process inside the blocker and signals in
its name. -/
def Xinu.KillSignals (s : Xinu) (pid b : Int) : Prop :=
  (s.proctab pid).prstate = .ready ∧ s.rwbflags pid ≠ 0 ∧ (s.proctab pid).prsem = -(b + 2)

instance (s : Xinu) (pid b : Int) : Decidable (s.KillSignals pid b) :=
  inferInstanceAs (Decidable (_ ∧ _))

/-- {lit}`kill` takes the victim for what it is: it has no signal on the blocker
half finished, and it signals if and only if the victim is inside, with the flag
of its role and no other signal half finished. -/
def KillFits (b : Int) (t : Xinu × Books) : Label → Prop
  | .call _ => True
  | .cont => ∀ pid ∈ t.1.victim, signalsOn b (t.1.stack pid) = [] ∧
      (t.2.inside b pid = none ∧ ¬ t.1.KillSignals pid b ∨
        t.1.KillSignals pid b ∧
          (t.2.inside b pid).map Role.flag = some (t.1.rwbflags pid) ∧ t.1.Settled b)

instance (b : Int) (t : Xinu × Books) (l : Label) : Decidable (KillFits b t l) :=
  match l with
  | .call _ => inferInstanceAs (Decidable True)
  | .cont => by unfold KillFits; infer_instance

section

variable {w : Watch} {g g' : View} {s s' : Xinu} {b p pid thisid n rwb : Int} {r : Role}
  {k k' : Books} {rest : List Int} {fs : List Frame} {l : Label}

/-- A try on the blocker that queues its caller. -/
theorem BookStep.block {t : Xinu × Books} (hG : Good w g t.1) (hL : Ledger b g t.2)
    (hb : ValidRwb b) (hu : (g.tab b).rwstate ≠ .free) (hout : t.2.inside b t.1.currpid = none)
    (hin : ∀ q, k'.inside b q = t.2.inside b q) (hwant : k'.want = upd t.2.want t.1.currpid r)
    (hreader : r = .reader → (g.tab b).rwcount < 0 ∨ 0 < (g.tab b).qcount)
    (hwriter : r = .writer → (g.tab b).rwcount ≠ 0 ∨ 0 < (g.tab b).qcount) :
    BookStep b t l g ((g.setFlag t.1.currpid r.flag).block t.1.currpid b) k' where
  ledger := hL.block hout (curr_not_waiting hG hb) hu hin hwant
  apart := fun _ h => h.congr hin
  awake := by
    intro _ _ hcounts hawake hs n rest hqueue
    have htab := View.block_tab (g.setFlag t.1.currpid r.flag) t.1.currpid b
    have hqueue' : g.lists (rwq b) ++ [t.1.currpid] = n :: rest :=
      (View.block_queue (g.setFlag t.1.currpid r.flag) t.1.currpid b).symm.trans hqueue
    have hoff := curr_not_waiting hG hb
    rw [htab]
    show (g.tab b).rwcount ≠ 0 ∧
      (0 < (g.tab b).rwcount → upd g.flags t.1.currpid r.flag n = -1)
    cases hL₀ : g.lists (rwq b) with
    | nil =>
        rw [hL₀] at hqueue'
        have hn : n = t.1.currpid := (List.cons.inj hqueue').1.symm
        have hqcount : (g.tab b).qcount = 0 := by
          rw [hcounts.used hu, hL₀]
          rfl
        rw [hn, upd_self]
        rw [hqcount] at hreader hwriter
        cases r with
        | reader =>
            have hneg := (hreader rfl).resolve_right (by decide)
            exact ⟨by omega, fun hpos => by omega⟩
        | writer => exact ⟨(hwriter rfl).resolve_right (by decide), fun _ => rfl⟩
    | cons m l₀ =>
        rw [hL₀] at hqueue' hoff
        have hn : n = m := (List.cons.inj hqueue').1.symm
        have hne : n ≠ t.1.currpid := by
          intro he
          apply hoff
          rw [← he, hn]
          exact List.mem_cons_self
        rw [upd_of_ne hne, hn]
        exact hawake hs m l₀ hL₀

/-- A try on the blocker that lets its caller in. -/
theorem BookStep.enter {t : Xinu × Books} (hG : Good w g t.1) (hL : Ledger b g t.2)
    (hb : ValidRwb b) (hu : (g.tab b).rwstate ≠ .free) (hout : t.2.inside b t.1.currpid = none)
    (hin : k'.inside b t.1.currpid = some r)
    (hin' : ∀ q, q ≠ t.1.currpid → k'.inside b q = t.2.inside b q)
    (hwant : k'.want = upd t.2.want t.1.currpid r)
    (hreader : r = .reader → 0 ≤ (g.tab b).rwcount)
    (hwriter : r = .writer → (g.tab b).rwcount = 0) (hempty : (g.tab b).qcount ≤ 0)
    (hsettled : EntersSettled b t l → g.Settled b) :
    BookStep b t l g ((g.setFlag t.1.currpid r.flag).setRwb b fun e =>
      { e with rwcount := e.rwcount + r.flag }) k' where
  ledger := by
    refine hL.enter (able_curr hG) hout (curr_not_waiting hG hb) hu ?_ ?_ ?_ ?_ ?_ hin hin'
    · exact View.setRwb_at _ b _
    · rfl
    · rfl
    · exact fun q hq => ⟨hq.valid, hq.live, hq.free⟩
    · intro q hq
      refine ⟨upd_of_ne hq, ?_⟩
      rw [hwant]
      exact upd_of_ne hq
  apart := by
    intro hs h
    have hweight := hL.count_of_settled (hsettled hs)
    apply apart_admit ?_ ?_ hin hin'
    · intro hr
      apply h.no_writer hL
      rw [← hweight]
      exact hreader hr
    · intro hr
      apply h.vacant hL
      rw [← hweight]
      exact hwriter hr
  awake := by
    intro _ _ hcounts _ _ n rest hqueue
    have hlen : (g.lists (rwq b)).length = 0 := by
      have heq := hcounts.used hu
      omega
    have hnil : g.lists (rwq b) = n :: rest := hqueue
    rw [hnil] at hlen
    cases hlen

/-- A process inside leaves, and the first of the queue may be released. -/
theorem BookStep.signal {t : Xinu × Books} {g₁ : View} {k₁ : Books} (hG : Good w g t.1)
    (hI' : Inv w g' EMPTY s') (hL : Ledger b g t.2) (hb : ValidRwb b) (hs : g.Settled b)
    (hin : t.2.inside b pid = some r)
    (htab : g₁.tab b = { g.tab b with rwcount := (g.tab b).rwcount - r.flag })
    (hlists : g₁.lists (rwq b) = g.lists (rwq b))
    (hframes : ∀ q, signalsOn b (g₁.frames q) = signalsOn b (g.frames q))
    (hable : ∀ q, Able g q → q ≠ pid → Able g₁ q)
    (hflags : ∀ q, q ≠ pid → g₁.flags q = g.flags q) (hwant : k₁.want = t.2.want)
    (hout : k₁.inside b pid = none) (hin' : ∀ q, q ≠ pid → k₁.inside b q = t.2.inside b q)
    (hstays : signalsOn b (g.frames pid) = []) (hcur : Able g₁ t.1.currpid)
    (hr : Releases g₁ t.1.currpid thisid b g') (heq : k' = k₁.releases t.1 s') :
    BookStep b t l g g' k' := by
  have hI := hG.ok.inv
  have hne_none : t.2.inside b pid ≠ none := by
    rw [hin]
    exact fun h => by cases h
  have hoff : pid ∉ g.lists (rwq b) := fun hm => hne_none (hL.waiting pid hm).2
  -- the victim's own fields do not matter once it has left
  have hL₁ : Ledger b g₁ k₁ := by
    have hleft : Ledger b ((g.setFlag pid 0).setRwb b fun e =>
        { e with rwcount := e.rwcount - r.flag }) k₁ :=
      hL.leave hs hin (View.setRwb_at _ b _) rfl rfl (fun q hq => ⟨hq.valid, hq.live, hq.free⟩)
        (fun q hq => upd_of_ne hq) hwant hout hin'
    apply hleft.congr
    · rw [View.setRwb_at]
      exact htab
    · exact hlists
    · exact hframes
    · exact fun _ => rfl
    · intro q hq hq'
      apply hable q ⟨hq'.valid, hq'.live, hq'.free⟩
      rintro rfl
      rcases hq with hq | hq
      · exact hq hout
      · exact hq hstays
    · intro q hq
      have hne : q ≠ pid := fun he => hoff (he ▸ hq)
      refine ⟨?_, rfl⟩
      show g₁.flags q = upd g.flags pid 0 q
      rw [upd_of_ne hne, hflags q hne]
  have hs₁ : g₁.Settled b := fun q => (hframes q).trans (hs q)
  rcases hL₁.releases hs₁ hcur hr hlists (fun q hq =>
    hable q (able_waiting hI hb hq) fun he => hoff (he ▸ hq)) hI hI' hb with ⟨hL', hA, hW⟩
  rw [heq]
  refine ⟨hL', ?_, ?_⟩
  · intro _ h
    rcases h.leave hne_none hout hin' with ⟨h₁, hno⟩
    exact hA hno h₁
  · exact fun _ _ _ _ => hW

/-- A half-finished signal that released a writer ends. -/
theorem BookStep.writer {t : Xinu × Books} (hL : Ledger b g t.2)
    (hfs : g.frames t.1.currpid = .rwbWriter thisid b :: fs)
    (hin : ∀ q, k'.inside b q = t.2.inside b q)
    (hwant : ∀ q ∈ g.lists (rwq b), k'.want q = t.2.want q) :
    BookStep b t l g ((g.setFrames t.1.currpid fs).signalWriter b) k' := by
  rcases hL.finish (r := .writer) hfs with ⟨hL', hs, p, hp⟩
  refine ⟨?_, fun _ h => h.congr hin, ?_⟩
  · exact hL'.congr rfl rfl (fun _ => rfl) hin (fun _ _ h => h) fun q hq => ⟨rfl, hwant q hq⟩
  · intro _ hapart _ _ hs' n rest hqueue
    have hcount : (((g.setFrames t.1.currpid fs).signalWriter b).tab b).rwcount = -1 := by
      rw [← weight_writer hapart (hL.valid hp) hp]
      exact hL'.count_of_settled hs
    rw [hcount]
    exact ⟨by decide, fun h => absurd h (by decide)⟩

/-- A half-finished signal that released a reader goes on. -/
theorem BookStep.reader {t : Xinu × Books} (hG : Good w g t.1) (hI' : Inv w g' EMPTY s')
    (hL : Ledger b g t.2) (hb : ValidRwb b)
    (hfs : g.frames t.1.currpid = .rwbReader thisid b :: fs)
    (hg : g' = (g.setFrames t.1.currpid fs).signalReader t.1.currpid thisid b)
    (heq : k' = t.2.releases t.1 s') : BookStep b t l g g' k' := by
  have hI := hG.ok.inv
  rcases hL.finish (r := .reader) hfs with ⟨hL₁, hs, p, hp⟩
  have hno : Apart b t.2 → ∀ q, t.2.inside b q ≠ some .writer := by
    intro h q hq
    have hpq := h q p hq (by
      rw [hp]
      exact fun h => by cases h)
    rw [hpq, hq] at hp
    cases hp
  have hcount := hL₁.count_of_settled hs
  unfold View.signalReader at hg
  dsimp only at hg
  change g' = ((g.setFrames t.1.currpid fs).setRwb b fun e =>
    { e with rwcount := e.rwcount + 1 }).signalReaders t.1.currpid thisid b _ at hg
  rcases signalReaders_releases ((g.setFrames t.1.currpid fs).setRwb b fun e =>
    { e with rwcount := e.rwcount + 1 }) t.1.currpid thisid b with
    ⟨n, rest, hqueue, hflag, hrel⟩ | ⟨hstop, hrel⟩
  · rw [hrel] at hg
    have hr : Releases ((g.setFrames t.1.currpid fs).setRwb b fun e =>
        { e with rwcount := e.rwcount + 1 }) t.1.currpid thisid b g' := by
      rw [hg]
      exact .reader hqueue hflag
    have hcur := able_curr hG
    have hlists : ((g.setFrames t.1.currpid fs).setRwb b fun e =>
        { e with rwcount := e.rwcount + 1 }).lists (rwq b) = g.lists (rwq b) := rfl
    rcases hL₁.releases hs ⟨hcur.valid, hcur.live, hcur.free⟩ hr hlists (fun q hq => by
      have hq' := able_waiting hI hb hq
      exact ⟨hq'.valid, hq'.live, hq'.free⟩) hI hI' hb with ⟨hL', hA, hW⟩
    rw [heq]
    exact ⟨hL', fun _ h => hA (hno h) h, fun _ _ _ _ => hW⟩
  · rw [hrel] at hg
    have hin := releases_grow hI hI' hb t.2 (by
      rw [hg]
      exact fun _ h => h)
    rw [heq]
    refine ⟨?_, fun _ h => h.congr hin, ?_⟩
    · rw [hg]
      exact hL₁.congr rfl rfl (fun _ => rfl) hin (fun _ _ h => h) fun _ _ => ⟨rfl, rfl⟩
    · intro _ hapart _ _ _ n rest hqueue
      rw [hg] at hqueue ⊢
      have hmem : n ∈ g.lists (rwq b) := by
        have hqueue' : g.lists (rwq b) = n :: rest := hqueue
        rw [hqueue']
        exact List.mem_cons_self
      have hpos := weight_reader (hno hapart) (hL.valid hp) hp
      have hcount' : ((((g.setFrames t.1.currpid fs).setRwb b fun e =>
          { e with rwcount := e.rwcount + 1 }).tab b).rwcount) = t.2.weight b := hcount
      rw [hcount']
      refine ⟨by omega, fun _ => ?_⟩
      have hn : g.flags n = (t.2.want n).flag := (hL.waiting n hmem).1
      rcases flag_cases (t.2.want n) with h | h
      · exact absurd (hn.trans h) (hstop n rest hqueue)
      · exact hn.trans h

/-!
## Flags and frames of the other blockers
-/

theorem tryread_flags (g : View) (pid rwb : Int) :
    (g.tryread pid rwb).flags = upd g.flags pid 1 := by
  rcases View.tryread_cases g pid rwb with ⟨_, heq⟩ | ⟨_, heq⟩
  · rw [heq]
    rfl
  · rw [heq]
    rfl

theorem trywrite_flags (g : View) (pid rwb : Int) :
    (g.trywrite pid rwb).flags = upd g.flags pid (-1) := by
  rcases View.trywrite_cases g pid rwb with ⟨_, heq⟩ | ⟨_, heq⟩
  · rw [heq]
    rfl
  · rw [heq]
    rfl

theorem Releases.flags (h : Releases g pid thisid rwb g') : g'.flags = g.flags := by
  cases h with
  | none => rfl
  | writer => rfl
  | reader => rfl

theorem signalsOn_upd {frames : Int → List Frame}
    (h : signalsOn b fs = signalsOn b (frames p)) (q : Int) :
    signalsOn b (upd frames p fs q) = signalsOn b (frames q) := by
  rw [upd_apply]
  split
  · rename_i hq
    rw [hq, h]
  · rfl

theorem release_signalsOn (hne : b ≠ rwb) (r : Role) (q : Int) :
    signalsOn b ((g.release pid rwb (r.frame thisid rwb)).frames q) =
      signalsOn b (g.frames q) := by
  apply signalsOn_upd
  apply signalsOn_cons_of_not
  rw [signals_frame]
  exact decide_eq_false fun h => hne h.symm

theorem Releases.signalsOn (h : Releases g pid thisid rwb g') (hne : b ≠ rwb) (q : Int) :
    BbbXinu.signalsOn b (g'.frames q) = BbbXinu.signalsOn b (g.frames q) := by
  cases h with
  | none => rfl
  | writer => exact release_signalsOn hne .writer q
  | reader => exact release_signalsOn hne .reader q

/-- What a signal on another blocker leaves alone. -/
theorem signalrwb_elsewhere (g : View) (pid thisid rwb : Int) (hne : b ≠ rwb) :
    (g.signalrwb pid thisid rwb).flags = upd g.flags thisid 0 ∧
      ∀ q, signalsOn b ((g.signalrwb pid thisid rwb).frames q) = signalsOn b (g.frames q) := by
  unfold View.signalrwb
  dsimp only
  have hr := signalNext_releases ((g.setFlag thisid 0).setRwb rwb fun e =>
    { e with rwcount := if g.flags thisid = -1 then e.rwcount + 1 else e.rwcount - 1 })
    pid thisid rwb
  exact ⟨hr.flags, fun q => hr.signalsOn hne q⟩

theorem signalReader_flags (g : View) (pid thisid rwb : Int) :
    (g.signalReader pid thisid rwb).flags = g.flags := by
  unfold View.signalReader View.signalReaders
  dsimp only
  split
  · rfl
  · rfl

theorem signalReader_elsewhere (g : View) (pid thisid rwb : Int) (hne : b ≠ rwb) :
    ∀ q, signalsOn b ((g.signalReader pid thisid rwb).frames q) =
      signalsOn b (g.frames q) := by
  unfold View.signalReader View.signalReaders
  dsimp only
  split
  · exact fun q => release_signalsOn hne .reader q
  · exact fun _ => rfl

theorem local_setFrames (g : View) (rwb pid : Int) (fs : List Frame) :
    View.Local rwb g (g.setFrames pid fs) :=
  ⟨rfl, rfl, rfl, rfl, fun _ _ => rfl, fun _ _ => rfl⟩

/-- The blocker is made, deleted or reset while nobody uses it. -/
theorem BookStep.unused {t : Xinu × Books} (hL : Ledger b g t.2)
    (hvac : ∀ q, t.2.inside b q = none) (hqueue : g'.lists (rwq b) = [])
    (hcount : (g'.tab b).rwcount = 0) (hframes : g'.frames = g.frames)
    (hin : ∀ q, k'.inside b q = t.2.inside b q) : BookStep b t l g g' k' where
  ledger := by
    have hvac' : ∀ q, k'.inside b q = none := fun q => (hin q).trans (hvac q)
    have hs : g'.Settled b := by
      intro q
      rw [hframes]
      exact hL.settled_of_vacant hvac q
    constructor
    · intro q hq
      rw [hqueue] at hq
      cases hq
    · intro q hq
      rcases hq with hq | hq
      · exact absurd (hvac' q) hq
      · exact absurd (hs q) hq
    · exact fun _ => ⟨hqueue, hvac'⟩
    · apply Balanced.settled hs
      rw [hcount, weight_vacant hvac']
  apart := fun _ h => h.congr hin
  awake := by
    intro _ _ _ _ _ n rest h
    rw [hqueue] at h
    cases h

/-!
## One lemma for each move
-/

/-- What a try changes elsewhere: the flag and the wish of its caller. -/
theorem BookStep.try_elsewhere {t : Xinu × Books} {c : Call} (hG : Good w g t.1)
    (hI' : Inv w g' EMPTY s') (hL : Ledger b g t.2) (hb : ValidRwb b)
    (hbad : ¬ t.1.isbadrwb rwb) (hl : View.Local rwb g g') (hne : b ≠ rwb)
    (hframes : g'.frames = g.frames) (hflags : g'.flags = upd g.flags t.1.currpid r.flag)
    (heq : k' = (t.2.tries t.1 rwb r c).releases t.1 s') : BookStep b t l g g' k' := by
  have hlists := hl.lists (rwq b) fun h => hne (rwq_inj h)
  apply BookStep.of_local hL hl hne
  · intro q
    rw [hframes]
  · intro q
    rw [heq, releases_grow hG.ok.inv hI' hb _ (by
      rw [hlists]
      exact fun _ h => h)]
    exact tries_inside_of_ne hne c r q
  · intro q hq
    have hqc : q ≠ t.1.currpid := fun he => curr_not_waiting hG hb (he ▸ hq)
    rw [hflags, heq]
    refine ⟨upd_of_ne hqc, ?_⟩
    show (t.2.tries t.1 rwb r c).want q = _
    rw [tries_want hbad]
    exact upd_of_ne hqc

/-- A try on the blocker itself, from its guard. -/
theorem BookStep.try_here {t : Xinu × Books} {c : Call} (hG : Good w g t.1)
    (hI' : Inv w g' EMPTY s') (hL : Ledger b g t.2) (hb : ValidRwb b)
    (hbad : ¬ t.1.isbadrwb b) (hu : (g.tab b).rwstate ≠ .free)
    (hout : t.2.inside b t.1.currpid = none)
    (hreader : r = .reader → (t.1.blocks c ↔ (g.tab b).rwcount < 0 ∨ 0 < (g.tab b).qcount))
    (hwriter : r = .writer → (t.1.blocks c ↔ (g.tab b).rwcount ≠ 0 ∨ 0 < (g.tab b).qcount))
    (hsettled : EntersSettled b t l → ¬ t.1.blocks c → t.1.Settled b)
    (hcases : t.1.blocks c ∧ g' = (g.setFlag t.1.currpid r.flag).block t.1.currpid b ∨
      ¬ t.1.blocks c ∧ g' = (g.setFlag t.1.currpid r.flag).setRwb b fun e =>
        { e with rwcount := e.rwcount + r.flag })
    (heq : k' = (t.2.tries t.1 b r c).releases t.1 s') : BookStep b t l g g' k' := by
  have hwant : k'.want = upd t.2.want t.1.currpid r := by
    rw [heq]
    exact tries_want hbad c r
  rcases hcases with ⟨hblock, hg⟩ | ⟨henter, hg⟩
  · have hgrow := releases_grow hG.ok.inv hI' hb (t.2.tries t.1 b r c) (by
      intro q hq
      rw [hg, View.block_queue]
      exact List.mem_append_left _ hq)
    rw [hg]
    refine BookStep.block hG hL hb hu hout ?_ hwant ?_ ?_
    · intro q
      rw [heq, hgrow]
      exact tries_block hbad hblock r q
    · exact fun hr => (hreader hr).mp hblock
    · exact fun hr => (hwriter hr).mp hblock
  · have hgrow := releases_grow hG.ok.inv hI' hb (t.2.tries t.1 b r c) (by
      rw [hg]
      exact fun _ h => h)
    rw [hg]
    refine BookStep.enter hG hL hb hu hout ?_ ?_ hwant ?_ ?_ ?_ ?_
    · rw [heq, hgrow]
      exact (tries_enter hbad henter r).1
    · intro q hq
      rw [heq, hgrow]
      exact (tries_enter hbad henter r).2 q hq
    · intro hr
      have h := fun h => henter ((hreader hr).mpr (Or.inl h))
      exact Int.not_lt.mp h
    · intro hr
      exact not_not.mp fun h => henter ((hwriter hr).mpr (Or.inl h))
    · cases r with
      | reader => exact Int.not_lt.mp fun h => henter ((hreader rfl).mpr (Or.inr h))
      | writer => exact Int.not_lt.mp fun h => henter ((hwriter rfl).mpr (Or.inr h))
    · exact fun hs => (settled_iff hG.ok.inv hL).mp (hsettled hs henter)

theorem BookStep.tryread {t : Xinu × Books} (hG : Good w g t.1) (hL : Ledger b g t.2)
    (hb : ValidRwb b) (hu : g.Usable rwb)
    (hI' : Inv w (g.tryread t.1.currpid rwb) EMPTY s')
    (hfair : rwb = b → t.2.inside b t.1.currpid = none) :
    BookStep b t (.call (.rwbTryread rwb)) g (g.tryread t.1.currpid rwb)
      (t.2.record t.1 (.call (.rwbTryread rwb)) s') := by
  have hbad := (usable_iff hG.ok.inv rwb).mp hu
  by_cases hne : b = rwb
  · cases hne
    have hblocks : t.1.blocks (.rwbTryread b) ↔
        (g.tab b).rwcount < 0 ∨ 0 < (g.tab b).qcount := by
      rw [← hG.ok.inv.tab]
      exact and_iff_right hbad
    apply BookStep.try_here (r := .reader) hG hI' hL hb hbad hu.2 (hfair rfl)
    · exact fun _ => hblocks
    · exact fun h => by cases h
    · exact fun hs => hs rfl
    · rw [hblocks]
      exact View.tryread_cases g t.1.currpid b
    · rfl
  · exact BookStep.try_elsewhere (r := .reader) hG hI' hL hb hbad
      (View.local_tryread g _ rwb) hne (View.tryread_frames g _ rwb) (tryread_flags g _ rwb) rfl

theorem BookStep.trywrite {t : Xinu × Books} (hG : Good w g t.1) (hL : Ledger b g t.2)
    (hb : ValidRwb b) (hu : g.Usable rwb)
    (hI' : Inv w (g.trywrite t.1.currpid rwb) EMPTY s')
    (hfair : rwb = b → t.2.inside b t.1.currpid = none) :
    BookStep b t (.call (.rwbTrywrite rwb)) g (g.trywrite t.1.currpid rwb)
      (t.2.record t.1 (.call (.rwbTrywrite rwb)) s') := by
  have hbad := (usable_iff hG.ok.inv rwb).mp hu
  by_cases hne : b = rwb
  · cases hne
    have hblocks : t.1.blocks (.rwbTrywrite b) ↔
        (g.tab b).rwcount ≠ 0 ∨ 0 < (g.tab b).qcount := by
      rw [← hG.ok.inv.tab]
      exact and_iff_right hbad
    apply BookStep.try_here (r := .writer) hG hI' hL hb hbad hu.2 (hfair rfl)
    · exact fun h => by cases h
    · exact fun _ => hblocks
    · exact fun hs => hs rfl
    · rw [hblocks]
      exact View.trywrite_cases g t.1.currpid b
    · rfl
  · exact BookStep.try_elsewhere (r := .writer) hG hI' hL hb hbad
      (View.local_trywrite g _ rwb) hne (View.trywrite_frames g _ rwb)
      (trywrite_flags g _ rwb) rfl

/-- The share given back by {lit}`_signalrwb` is that of the flag. -/
theorem giveBack (r : Role) (c : Int) :
    (if r.flag = -1 then c + 1 else c - 1) = c - r.flag := by
  cases r with
  | reader => rfl
  | writer => exact (Int.sub_neg c 1).symm

theorem BookStep.signalrwb {t : Xinu × Books} (hG : Good w g t.1) (hL : Ledger b g t.2)
    (hb : ValidRwb b) (hu : g.Usable rwb)
    (hI' : Inv w (g.signalrwb t.1.currpid t.1.currpid rwb) EMPTY s')
    (hflag : rwb = b →
      (t.2.inside b t.1.currpid).map Role.flag = some (t.1.rwbflags t.1.currpid))
    (hleave : rwb = b → t.1.Settled b) :
    BookStep b t (.call (.signalrwb rwb)) g (g.signalrwb t.1.currpid t.1.currpid rwb)
      (t.2.record t.1 (.call (.signalrwb rwb)) s') := by
  have hI := hG.ok.inv
  have hbad := (usable_iff hI rwb).mp hu
  rcases leaves_inside (k := t.2) hbad with ⟨hout, hin, hother, hwant⟩
  have hcur := able_curr hG
  by_cases hne : b = rwb
  · cases hne
    have hs := (settled_iff hI hL).mp (hleave rfl)
    rcases Option.map_eq_some_iff.mp (hflag rfl) with ⟨r, hr, hrflag⟩
    rw [hI.flags] at hrflag
    have htab : ((g.setFlag t.1.currpid 0).setRwb b fun e => { e with
        rwcount := if g.flags t.1.currpid = -1 then e.rwcount + 1 else e.rwcount - 1 }).tab b =
          { g.tab b with rwcount := (g.tab b).rwcount - r.flag } := by
      rw [View.setRwb_at, ← hrflag]
      dsimp only
      rw [giveBack]
      rfl
    refine BookStep.signal hG hI' hL hb hs hr htab rfl (fun _ => rfl) ?_ ?_ hwant hout hin
      (hs _) ?_ (signalNext_releases _ _ _ _) rfl
    · exact fun q hq _ => ⟨hq.valid, hq.live, hq.free⟩
    · exact fun q hq => upd_of_ne hq
    · exact ⟨hcur.valid, hcur.live, hcur.free⟩
  · have hl := signalrwb_local g t.1.currpid t.1.currpid rwb
    have helse := signalrwb_elsewhere (b := b) g t.1.currpid t.1.currpid rwb hne
    apply BookStep.of_local hL hl hne helse.2
    · intro q
      show ((t.2.leaves t.1 rwb).releases t.1 s').inside b q = _
      rw [releases_grow hI hI' hb _ (by
        rw [hl.lists _ fun h => hne (rwq_inj h)]
        exact fun _ h => h), hother b hne]
    · intro q hq
      have hqc : q ≠ t.1.currpid := fun he => curr_not_waiting hG hb (he ▸ hq)
      rw [helse.1]
      refine ⟨upd_of_ne hqc, ?_⟩
      show (t.2.leaves t.1 rwb).want q = _
      rw [hwant]

theorem record_cont {t : Xinu × Books} (hv : t.1.victim = none) :
    t.2.record t.1 .cont s' = t.2.releases t.1 s' := record_off hv

theorem BookStep.signalWriter {t : Xinu × Books} (hG : Good w g t.1) (hL : Ledger b g t.2)
    (hb : ValidRwb b) (hfs : g.frames t.1.currpid = .rwbWriter thisid rwb :: fs)
    (hI' : Inv w ((g.setFrames t.1.currpid fs).signalWriter rwb) EMPTY s') :
    BookStep b t .cont g ((g.setFrames t.1.currpid fs).signalWriter rwb)
      (t.2.releases t.1 s') := by
  have hin := releases_grow hG.ok.inv hI' hb t.2 fun _ h => h
  by_cases hne : b = rwb
  · cases hne
    exact BookStep.writer hL hfs hin fun _ _ => rfl
  · have hl : View.Local rwb g ((g.setFrames t.1.currpid fs).signalWriter rwb) :=
      (local_setFrames g rwb t.1.currpid fs).trans
        (View.local_setRwb _ rwb fun e => { e with rwcount := e.rwcount - 1 })
    have hnot : (Frame.rwbWriter thisid rwb).signals b = false :=
      decide_eq_false fun h => hne h.symm
    refine BookStep.of_local hL hl hne ?_ hin ?_
    · apply signalsOn_upd
      rw [hfs]
      exact (signalsOn_cons_of_not hnot).symm
    · exact fun _ _ => ⟨rfl, rfl⟩

theorem BookStep.signalReader {t : Xinu × Books} (hG : Good w g t.1) (hL : Ledger b g t.2)
    (hb : ValidRwb b) (hfs : g.frames t.1.currpid = .rwbReader thisid rwb :: fs)
    (hI' : Inv w ((g.setFrames t.1.currpid fs).signalReader t.1.currpid thisid rwb)
      EMPTY s') :
    BookStep b t .cont g ((g.setFrames t.1.currpid fs).signalReader t.1.currpid thisid rwb)
      (t.2.releases t.1 s') := by
  by_cases hne : b = rwb
  · cases hne
    exact BookStep.reader hG hI' hL hb hfs rfl rfl
  · have hl := (local_setFrames g rwb t.1.currpid fs).trans
      (signalReader_local (g.setFrames t.1.currpid fs) t.1.currpid thisid rwb)
    have helse := signalReader_elsewhere (b := b) (g.setFrames t.1.currpid fs) t.1.currpid
      thisid rwb hne
    have hnot : (Frame.rwbReader thisid rwb).signals b = false :=
      decide_eq_false fun h => hne h.symm
    apply BookStep.of_local hL hl hne
    · intro q
      rw [helse]
      apply signalsOn_upd
      rw [hfs]
      exact (signalsOn_cons_of_not hnot).symm
    · apply releases_grow hG.ok.inv hI' hb
      rw [hl.lists _ fun h => hne (rwq_inj h)]
      exact fun _ h => h
    · intro q _
      rw [signalReader_flags]
      exact ⟨rfl, rfl⟩

/-!
## Killing
-/

theorem drops_inside (k : Books) (pid b q : Int) :
    (k.drops pid).inside b q = if q = pid then none else k.inside b q := rfl

/-- The victim uses neither the blocker nor its queue. -/
theorem BookStep.kill_elsewhere {t : Xinu × Books} (hI : Inv w g EMPTY t.1)
    (hI' : Inv w g' EMPTY s') (hL : Ledger b g t.2) (hb : ValidRwb b)
    (hout : t.2.inside b pid = none) (hstack : signalsOn b (g.frames pid) = [])
    (hlists : g'.lists (rwq b) = g.lists (rwq b)) (htab : g'.tab b = g.tab b)
    (hframes : ∀ q, signalsOn b (g'.frames q) = signalsOn b (g.frames q))
    (hable : ∀ q, q ≠ pid → Able g q → Able g' q)
    (hflags : ∀ q ∈ g.lists (rwq b), g'.flags q = g.flags q) :
    BookStep b t l g g' ((t.2.releases t.1 s').drops pid) := by
  have hin : ∀ q, ((t.2.releases t.1 s').drops pid).inside b q = t.2.inside b q := by
    intro q
    rw [drops_inside, releases_grow hI hI' hb t.2 (by
      rw [hlists]
      exact fun _ h => h)]
    split
    · rename_i hq
      rw [hq, hout]
    · rfl
  apply BookStep.elsewhere hL htab hlists hframes hin
  · intro q hq
    apply hable q
    rintro rfl
    rcases hq with hq | hq
    · exact hq hout
    · exact hq hstack
  · exact fun q hq => ⟨hflags q hq, rfl⟩

/-- The victim waits in the queue of the blocker. -/
theorem BookStep.kill_waiting {t : Xinu × Books} {v : Int} (hG : Good w g t.1)
    (hL : Ledger b g t.2) (hb : ValidRwb b) (hv : t.1.victim = some v)
    (hstack : signalsOn b (g.frames pid) = []) (hmem : pid ∈ g.lists (rwq b))
    (hrest : g'.lists (rwq b) = (g.lists (rwq b)).erase pid)
    (htab : g'.tab b = { g.tab b with qcount := (g.tab b).qcount - 1 })
    (hframes : ∀ q, signalsOn b (g'.frames q) = signalsOn b (g.frames q))
    (hable : ∀ q, q ≠ pid → Able g q → Able g' q)
    (hflags : ∀ q, q ≠ pid → g'.flags q = g.flags q) (hI' : Inv w g' EMPTY s') :
    BookStep b t l g g' ((t.2.releases t.1 s').drops pid) := by
  have hI := hG.ok.inv
  have hout := (hL.waiting pid hmem).2
  have hnodup : (g.lists (rwq b)).Nodup := by
    rw [← hI.lists_eq _ (rwq_ne_readylist hb)]
    exact hI.queues.nodup (isQueue_rwq hb)
  have hin : ∀ q, ((t.2.releases t.1 s').drops pid).inside b q = t.2.inside b q := by
    intro q
    rw [drops_inside, releases_inside hI hI' hb, hrest]
    split
    · rename_i hq
      rw [hq, hout]
    · rename_i hq
      apply if_neg
      intro h
      exact h.2 ((List.mem_erase_of_ne hq).mpr h.1)
  refine ⟨?_, fun _ h => h.congr hin, ?_⟩
  · constructor
    · intro q hq
      rw [hrest] at hq
      have hne : q ≠ pid := by
        rintro rfl
        exact (List.Nodup.not_mem_erase hnodup) hq
      rw [hflags q hne, hin q]
      exact hL.waiting q (List.mem_of_mem_erase hq)
    · intro q hq
      rw [hin q, hframes q] at hq
      apply hable q ?_ (hL.active q hq)
      rintro rfl
      rcases hq with hq | hq
      · exact hq hout
      · exact hq hstack
    · intro hf
      rw [htab] at hf
      have hnil := (hL.idle hf).1
      rw [hnil] at hmem
      cases hmem
    · apply hL.balanced.congr ?_ hframes hin
      rw [htab]
  · intro hnone
    rw [hv] at hnone
    cases hnone

theorem BookStep.congr {t : Xinu × Books} (h : BookStep b t l g g' k)
    (hin : ∀ q, k'.inside b q = k.inside b q) (hwant : k'.want = k.want) :
    BookStep b t l g g' k' where
  ledger := by
    apply h.ledger.congr rfl rfl (fun _ => rfl) hin (fun _ _ h => h)
    intro q _
    rw [hwant]
    exact ⟨rfl, rfl⟩
  apart := fun hs ha => (h.apart hs ha).congr hin
  awake := h.awake

/-- The conditions on a victim. -/
structure Victim (b : Int) (t : Xinu × Books) (pid : Int) : Prop where
  stack : signalsOn b (t.1.stack pid) = []
  fits : t.2.inside b pid = none ∧ ¬ t.1.KillSignals pid b ∨
    t.1.KillSignals pid b ∧
      (t.2.inside b pid).map Role.flag = some (t.1.rwbflags pid) ∧ t.1.Settled b

theorem KillFits.victim {t : Xinu × Books} (h : KillFits b t .cont) (hv : t.1.victim = some pid) :
    Victim b t pid :=
  ⟨(h pid hv).1, (h pid hv).2⟩

theorem Victim.out {t : Xinu × Books} (h : Victim b t pid) (hs : ¬ t.1.KillSignals pid b) :
    t.2.inside b pid = none := by
  rcases h.fits with h | h
  · exact h.1
  · exact absurd h.1 hs

/-- A signal in the name of a victim in limbo. -/
theorem BookStep.kill_signal {t : Xinu × Books} {g₂ : View} (hG : Good w g t.1)
    (hL : Ledger b g t.2) (hb : ValidRwb b) (hvictim : Victim b t pid)
    (hready : (t.1.proctab pid).prstate = .ready) (htab : g₂.tab = g.tab)
    (hlists : g₂.lists = g.lists) (hflags : g₂.flags = g.flags) (hlive : g₂.live = g.live)
    (hlimbo : ∀ q, q ≠ pid → g₂.limbo q → g.limbo q)
    (hframes : ∀ q, signalsOn b (g₂.frames q) = signalsOn b (g.frames q))
    (hkills : t.1.KillSignals pid rwb)
    (hI' : Inv w (g₂.signalrwb t.1.currpid pid rwb) EMPTY s') :
    BookStep b t .cont g (g₂.signalrwb t.1.currpid pid rwb)
      ((t.2.releases t.1 s').drops pid) := by
  have hI := hG.ok.inv
  have hcur := able_curr hG
  have hstack : signalsOn b (g.frames pid) = [] :=
    (signalsOn_frames hI b pid).trans hvictim.stack
  have hable : ∀ q, Able g q → q ≠ pid → Able g₂ q := by
    intro q hq hne
    refine ⟨hq.valid, ?_, fun h => hq.free (hlimbo q hne h)⟩
    rw [hlive]
    exact hq.live
  have hne : t.1.currpid ≠ pid := by
    intro he
    rw [← he, hG.ok.curr] at hready
    cases hready
  have hoff : pid ∉ g.lists (rwq b) := by
    intro hm
    rw [wait_of_mem hI hb hm] at hready
    cases hready
  by_cases hrwb : b = rwb
  · cases hrwb
    rcases hvictim.fits with h | ⟨_, hflag, hs⟩
    · exact absurd hkills h.2
    · rcases Option.map_eq_some_iff.mp hflag with ⟨r, hr, hrflag⟩
      rw [hI.flags] at hrflag
      have hdrop : (t.2.drops pid).inside b pid = none := if_pos rfl
      have hdrop' : ∀ q, q ≠ pid → (t.2.drops pid).inside b q = t.2.inside b q :=
        fun q hq => if_neg hq
      have hwant : (t.2.drops pid).want = t.2.want := rfl
      have htab₂ : ((g₂.setFlag pid 0).setRwb b fun e =>
          { e with rwcount := if g₂.flags pid = -1 then e.rwcount + 1 else e.rwcount - 1 }).tab
            b = { g.tab b with rwcount := (g.tab b).rwcount - r.flag } := by
        rw [View.setRwb_at, hflags, ← hrflag]
        dsimp only
        rw [giveBack, show (g₂.setFlag pid 0).tab = g.tab from htab]
      have hstep : BookStep b t .cont g (g₂.signalrwb t.1.currpid pid b)
          ((t.2.drops pid).releases t.1 s') := by
        refine BookStep.signal hG hI' hL hb ((settled_iff hI hL).mp hs) hr htab₂
          (congrFun hlists _) hframes ?_ ?_ hwant hdrop hdrop' hstack ?_
          (signalNext_releases _ _ _ _) rfl
        · intro q hq hqne
          have hq' := hable q hq hqne
          exact ⟨hq'.valid, hq'.live, hq'.free⟩
        · intro q hq
          show upd g₂.flags pid 0 q = g.flags q
          rw [upd_of_ne hq, hflags]
        · have hcur' := hable _ hcur hne
          exact ⟨hcur'.valid, hcur'.live, hcur'.free⟩
      have hwant' : ((t.2.releases t.1 s').drops pid).want =
        ((t.2.drops pid).releases t.1 s').want := rfl
      apply hstep.congr ?_ hwant'
      intro q
      rw [drops_inside, releases_inside hI hI' hb, releases_inside hI hI' hb, drops_inside]
      split
      · rename_i hq
        rw [if_neg]
        rw [hq]
        exact fun h => hoff h.1
      · rfl
  · have hl := signalrwb_local g₂ t.1.currpid pid rwb
    have helse := signalrwb_elsewhere (b := b) g₂ t.1.currpid pid rwb hrwb
    apply BookStep.kill_elsewhere hI hI' hL hb
    · apply hvictim.out
      intro h
      have h1 := h.2.2
      have h2 := hkills.2.2
      omega
    · exact hstack
    · rw [hl.lists _ fun h => hrwb (rwq_inj h), hlists]
    · rw [hl.tab b hrwb, htab]
    · exact fun q => (helse.2 q).trans (hframes q)
    · intro q hqne hq
      have hq' := hable q hq hqne
      refine ⟨hq'.valid, ?_, ?_⟩
      · rw [hl.live]
        exact hq'.live
      · rw [hl.limbo]
        exact hq'.free
    · intro q hq
      have hqne : q ≠ pid := fun he => hoff (he ▸ hq)
      rw [helse.1, upd_of_ne hqne, hflags]

/-- A ready victim. -/
theorem BookStep.killReady {t : Xinu × Books} (hG : Good w g t.1) (hL : Ledger b g t.2)
    (hb : ValidRwb b) (hvictim : Victim b t pid) (hready : (t.1.proctab pid).prstate = .ready)
    (hfs : g.frames t.1.currpid = .killSent pid :: fs)
    (hI' : Inv w ((g.setFrames t.1.currpid fs).killReady t.1.currpid pid
      (t.1.proctab pid).prsem) EMPTY s') :
    BookStep b t .cont g ((g.setFrames t.1.currpid fs).killReady t.1.currpid pid
        (t.1.proctab pid).prsem) ((t.2.releases t.1 s').drops pid) := by
  have hI := hG.ok.inv
  have hstack : signalsOn b (g.frames pid) = [] :=
    (signalsOn_frames hI b pid).trans hvictim.stack
  have hpop : ∀ q, signalsOn b (upd g.frames t.1.currpid fs q) = signalsOn b (g.frames q) := by
    apply signalsOn_upd
    rw [hfs]
    exact (signalsOn_cons_of_not rfl).symm
  unfold View.killReady at hI' ⊢
  by_cases hsig : (g.setFrames t.1.currpid fs).flags pid ≠ 0 ∧ (t.1.proctab pid).prsem < -1
  · rw [if_pos hsig] at hI' ⊢
    dsimp only at hI' ⊢
    have hkills : t.1.KillSignals pid (-1 * ((t.1.proctab pid).prsem + 2)) := by
      refine ⟨hready, ?_, by omega⟩
      rw [hI.flags]
      exact hsig.1
    have hpush : ∀ q, signalsOn b ((((g.setFrames t.1.currpid fs).setLimbo fun p =>
        p = pid ∨ g.limbo p).pushFrame t.1.currpid (.killSignaled pid)).frames q) =
        signalsOn b (g.frames q) := by
      intro q
      rw [← hpop q]
      apply signalsOn_upd
      exact signalsOn_cons_of_not rfl
    by_cases hu : (((g.setFrames t.1.currpid fs).setLimbo fun p => p = pid ∨ g.limbo p).pushFrame
        t.1.currpid (.killSignaled pid)).Usable (-1 * ((t.1.proctab pid).prsem + 2))
    · rw [if_pos (by exact hu)] at hI' ⊢
      exact BookStep.kill_signal hG hL hb hvictim hready rfl rfl rfl rfl
        (fun q hq h => h.resolve_left hq) hpush hkills hI'
    · rw [if_neg (by exact hu)] at hI' ⊢
      have hout : t.2.inside b pid = none := by
        by_contra hin
        have hkillsb : t.1.KillSignals pid b := not_not.mp fun h => hin (hvictim.out h)
        have h1 := hkillsb.2.2
        have hb' : b = -1 * ((t.1.proctab pid).prsem + 2) := by omega
        rw [← hb'] at hu
        exact hu ⟨hb, hL.used hin⟩
      apply BookStep.kill_elsewhere hI hI' hL hb hout hstack rfl rfl hpush
      · exact fun q hne hq => ⟨hq.valid, hq.live, fun h => hq.free (h.resolve_left hne)⟩
      · exact fun _ _ => rfl
  · rw [if_neg hsig] at hI' ⊢
    have hout : t.2.inside b pid = none := by
      apply hvictim.out
      intro h
      apply hsig
      have h1 := h.2.2
      have h2 := hb.1
      refine ⟨?_, by omega⟩
      show g.flags pid ≠ 0
      rw [← hI.flags]
      exact h.2.1
    apply BookStep.kill_elsewhere hI hI' hL hb hout hstack rfl rfl hpop
    · refine fun q hne hq => ⟨hq.valid, ?_, hq.free⟩
      show upd g.live pid False q
      rw [upd_of_ne hne]
      exact hq.live
    · exact fun _ _ => rfl

/-- A waiting victim. -/
theorem BookStep.killWait {t : Xinu × Books} (hG : Good w g t.1) (hL : Ledger b g t.2)
    (hb : ValidRwb b) (hlinked : t.1.Linked pid) (hv : t.1.victim = some pid)
    (hvictim : Victim b t pid) (hwait : (t.1.proctab pid).prstate = .wait)
    (hprsem : (t.1.proctab pid).prsem < -1)
    (hfs : g.frames t.1.currpid = .killSent pid :: fs)
    (hI' : Inv w ((g.setFrames t.1.currpid fs).killWaiting pid
      (-1 * ((t.1.proctab pid).prsem + 2))) EMPTY s') :
    BookStep b t .cont g ((g.setFrames t.1.currpid fs).killWaiting pid
        (-1 * ((t.1.proctab pid).prsem + 2))) ((t.2.releases t.1 s').drops pid) := by
  have hI := hG.ok.inv
  have hstack : signalsOn b (g.frames pid) = [] :=
    (signalsOn_frames hI b pid).trans hvictim.stack
  have hpop : ∀ q, signalsOn b (upd g.frames t.1.currpid fs q) = signalsOn b (g.frames q) := by
    apply signalsOn_upd
    rw [hfs]
    exact (signalsOn_cons_of_not rfl).symm
  have hhome : home (t.1.proctab pid) = some (rwq (-1 * ((t.1.proctab pid).prsem + 2))) := by
    rw [home_wait hwait]
    exact congrArg some (if_pos hprsem)
  have hable : ∀ q, q ≠ pid → Able g q → Able ((g.setFrames t.1.currpid fs).killWaiting pid
      (-1 * ((t.1.proctab pid).prsem + 2))) q := by
    refine fun q hne hq => ⟨hq.valid, ?_, hq.free⟩
    show upd g.live pid False q
    rw [upd_of_ne hne]
    exact hq.live
  by_cases hb' : b = -1 * ((t.1.proctab pid).prsem + 2)
  · rw [← hb'] at hI' hhome hable ⊢
    have hmem : pid ∈ g.lists (rwq b) := by
      rw [← hI.lists_eq _ (rwq_ne_readylist hb)]
      exact Linked.mem hlinked hhome
    apply BookStep.kill_waiting hG hL hb hv hstack hmem
    · exact View.unqueue_at _ _ _
    · exact (g.setFlag pid 0).setRwb_at b fun e => { e with qcount := e.qcount - 1 }
    · exact hpop
    · exact hable
    · exact fun q hq => upd_of_ne hq
    · exact hI'
  · have hoff : pid ∉ g.lists (rwq b) := by
      intro hm
      rw [← hI.lists_eq _ (rwq_ne_readylist hb)] at hm
      have h := ((hI.mem_iff _ _).mp hm).1
      rw [hhome] at h
      exact hb' (rwq_inj (Option.some.inj h)).symm
    apply BookStep.kill_elsewhere hI hI' hL hb
    · apply hvictim.out
      intro h
      have hready := h.1
      rw [hwait] at hready
      cases hready
    · exact hstack
    · exact upd_of_ne fun h => hb' (rwq_inj h)
    · exact upd_of_ne hb'
    · exact hpop
    · exact hable
    · exact fun q hq => upd_of_ne fun he => hoff (he ▸ hq)

theorem BookStep.killState {t : Xinu × Books} (hG : Good w g t.1) (hL : Ledger b g t.2)
    (hb : ValidRwb b) (hlinked : t.1.Linked pid) (hv : t.1.victim = some pid)
    (hvictim : Victim b t pid) (hfs : g.frames t.1.currpid = .killSent pid :: fs)
    (hI' : Inv w ((g.setFrames t.1.currpid fs).killState t.1.currpid pid
      (t.1.proctab pid).prstate (t.1.proctab pid).prsem) EMPTY s') :
    BookStep b t .cont g ((g.setFrames t.1.currpid fs).killState t.1.currpid pid
        (t.1.proctab pid).prstate (t.1.proctab pid).prsem)
      ((t.2.releases t.1 s').drops pid) := by
  have hI := hG.ok.inv
  have hstack : signalsOn b (g.frames pid) = [] :=
    (signalsOn_frames hI b pid).trans hvictim.stack
  -- a victim that is neither ready nor in the queue of a blocker
  have hplain : (t.1.proctab pid).prstate ≠ .ready → ∀ g₂ : View, Inv w g₂ EMPTY s' →
      g₂.live = upd g.live pid False → g₂.limbo = g.limbo →
      g₂.lists (rwq b) = g.lists (rwq b) → g₂.tab b = g.tab b →
      g₂.frames = upd g.frames t.1.currpid fs → g₂.flags = g.flags →
      BookStep b t .cont g g₂ ((t.2.releases t.1 s').drops pid) := by
    intro hstate g₂ hI₂ hlive hlimbo hlists htab hframes hflags
    apply BookStep.kill_elsewhere hI hI₂ hL hb (hvictim.out fun h => hstate h.1) hstack hlists
      htab
    · intro q
      rw [hframes]
      apply signalsOn_upd
      rw [hfs]
      exact (signalsOn_cons_of_not rfl).symm
    · intro q hne hq
      refine ⟨hq.valid, ?_, ?_⟩
      · rw [hlive, upd_of_ne hne]
        exact hq.live
      · rw [hlimbo]
        exact hq.free
    · intro q _
      rw [hflags]
  unfold View.killState at hI' ⊢
  cases hstate : (t.1.proctab pid).prstate with
  | ready =>
      rw [hstate] at hI'
      exact BookStep.killReady hG hL hb hvictim hstate hfs hI'
  | wait =>
      rw [hstate] at hI'
      dsimp only at hI' ⊢
      by_cases hprsem : (t.1.proctab pid).prsem < -1
      · rw [if_pos hprsem] at hI' ⊢
        exact BookStep.killWait hG hL hb hlinked hv hvictim hstate hprsem hfs hI'
      · rw [if_neg hprsem] at hI' ⊢
        have hsem := (hI.waits_on pid hstate).resolve_right fun h => hprsem h.1
        exact hplain (by rw [hstate]; exact fun h => by cases h) _ hI' rfl rfl
          (upd_of_ne (semq_ne_rwq hsem hb).symm) rfl rfl rfl
  | sleep =>
      rw [hstate] at hI'
      exact hplain (by rw [hstate]; exact fun h => by cases h) _ hI' rfl rfl
        (upd_of_ne (rwq_ne_sleepq hb)) rfl rfl rfl
  | rectim =>
      rw [hstate] at hI'
      exact hplain (by rw [hstate]; exact fun h => by cases h) _ hI' rfl rfl
        (upd_of_ne (rwq_ne_sleepq hb)) rfl rfl rfl
  | free =>
      rw [hstate] at hI'
      exact hplain (by rw [hstate]; exact fun h => by cases h) _ hI' rfl rfl rfl rfl rfl rfl
  | curr =>
      rw [hstate] at hI'
      exact hplain (by rw [hstate]; exact fun h => by cases h) _ hI' rfl rfl rfl rfl rfl rfl
  | recv =>
      rw [hstate] at hI'
      exact hplain (by rw [hstate]; exact fun h => by cases h) _ hI' rfl rfl rfl rfl rfl rfl
  | susp =>
      rw [hstate] at hI'
      exact hplain (by rw [hstate]; exact fun h => by cases h) _ hI' rfl rfl rfl rfl rfl rfl

theorem BookStep.killSignaled {t : Xinu × Books} (hG : Good w g t.1) (hL : Ledger b g t.2)
    (hb : ValidRwb b) (hfs : g.frames t.1.currpid = .killSignaled pid :: fs)
    (hI' : Inv w ((g.setFrames t.1.currpid fs).killSignaled pid) EMPTY s') :
    BookStep b t .cont g ((g.setFrames t.1.currpid fs).killSignaled pid)
      (t.2.releases t.1 s') := by
  have hlimbo : g.limbo pid := by
    have hsound := hG.stacked.sound t.1.currpid
    rw [hfs] at hsound
    exact hsound.1.1
  refine BookStep.elsewhere hL ?_ ?_ ?_ ?_ ?_ ?_
  · rfl
  · rfl
  · apply signalsOn_upd
    rw [hfs]
    exact (signalsOn_cons_of_not rfl).symm
  · exact releases_grow hG.ok.inv hI' hb t.2 fun _ h => h
  · intro q _ hq
    have hne : q ≠ pid := fun he => hq.free (he ▸ hlimbo)
    refine ⟨hq.valid, ?_, fun h => hq.free h.2⟩
    show upd g.live pid False q
    rw [upd_of_ne hne]
    exact hq.live
  · exact fun _ _ => ⟨rfl, rfl⟩

/-!
## The other moves
-/

/-- A move that leaves the blockers alone. -/
theorem BookStep.same {t : Xinu × Books} (hG : Good w g t.1) (hL : Ledger b g t.2)
    (hb : ValidRwb b) (h : g.SameBlockers g') (hI' : Inv w g' EMPTY s') :
    BookStep b t l g g' (t.2.releases t.1 s') := by
  apply BookStep.elsewhere hL (by rw [h.tab]) (h.lists b hb)
  · intro q
    rw [h.frames]
  · apply releases_grow hG.ok.inv hI' hb
    rw [h.lists b hb]
    exact fun _ h => h
  · intro q _ hq
    refine ⟨hq.valid, ?_, ?_⟩
    · rw [h.live]
      exact hq.live
    · rw [h.limbo]
      exact hq.free
  · intro q _
    rw [h.flags]
    exact ⟨rfl, rfl⟩

/-- A new process uses nothing. -/
theorem BookStep.born {t : Xinu × Books} (hG : Good w g t.1) (hL : Ledger b g t.2)
    (hb : ValidRwb b) (hdead : ¬ g.live pid)
    (hI' : Inv w ((g.setLive pid True).setFrames pid []) EMPTY s') :
    BookStep b t l g ((g.setLive pid True).setFrames pid []) (t.2.releases t.1 s') := by
  refine BookStep.elsewhere hL ?_ ?_ ?_ ?_ ?_ ?_
  · rfl
  · rfl
  · apply signalsOn_upd
    by_contra hne
    exact hdead (hL.active pid (Or.inr fun h => hne h.symm)).live
  · exact releases_grow hG.ok.inv hI' hb t.2 fun _ h => h
  · intro q _ hq
    have hne : q ≠ pid := fun he => hdead (he ▸ hq.live)
    refine ⟨hq.valid, ?_, hq.free⟩
    show upd g.live pid True q
    rw [upd_of_ne hne]
    exact hq.live
  · exact fun _ _ => ⟨rfl, rfl⟩

/-- Only {lit}`killSent` is pushed. -/
theorem BookStep.kill {t : Xinu × Books} (hG : Good w g t.1) (hL : Ledger b g t.2)
    (hb : ValidRwb b)
    (h : (g.pushFrame t.1.currpid (.killSent pid)).SameBlockers g') (hI' : Inv w g' EMPTY s') :
    BookStep b t l g g' (t.2.releases t.1 s') := by
  apply BookStep.elsewhere hL
  · rw [h.tab]
    rfl
  · exact h.lists b hb
  · intro q
    rw [h.frames]
    apply signalsOn_upd
    exact signalsOn_cons_of_not rfl
  · apply releases_grow hG.ok.inv hI' hb
    rw [h.lists b hb]
    exact fun _ h => h
  · intro q _ hq
    refine ⟨hq.valid, ?_, ?_⟩
    · rw [h.live]
      exact hq.live
    · rw [h.limbo]
      exact hq.free
  · intro q _
    rw [h.flags]
    exact ⟨rfl, rfl⟩

/-- A call that makes, deletes or resets a blocker. -/
theorem BookStep.manage {t : Xinu × Books} (hG : Good w g t.1) (hL : Ledger b g t.2)
    (hb : ValidRwb b) (hrwb : ValidRwb rwb) (hl : View.Local rwb g g')
    (hframes : g'.frames = g.frames) (hflags : ∀ q, q ∉ g.lists (rwq rwb) → g'.flags q = g.flags q)
    (hunused : rwb = b → (∀ q, t.2.inside b q = none) ∧ g.lists (rwq b) = [] ∧
      g'.lists (rwq b) = [] ∧ (g'.tab b).rwcount = 0)
    (hI' : Inv w g' EMPTY s') : BookStep b t l g g' (t.2.releases t.1 s') := by
  have hI := hG.ok.inv
  by_cases hne : b = rwb
  · rcases hunused hne.symm with ⟨hvac, hqueue, hqueue', hcount⟩
    apply BookStep.unused hL hvac hqueue' hcount hframes
    apply releases_grow hI hI' hb
    rw [hqueue]
    exact fun q h => absurd h List.not_mem_nil
  · have hlists := hl.lists (rwq b) fun h => hne (rwq_inj h)
    apply BookStep.of_local hL hl hne
    · intro q
      rw [hframes]
    · apply releases_grow hI hI' hb
      rw [hlists]
      exact fun _ h => h
    · intro q hq
      exact ⟨hflags q fun hq' => hne (waiting_unique hI hb hrwb hq hq'), rfl⟩

/-- The blocker is neither in use nor waited for. -/
theorem unused_of_fair {t : Xinu × Books} (hI : Inv w g EMPTY t.1) (hL : Ledger b g t.2)
    (hb : ValidRwb b) (h : t.2.Vacant b ∧ t.1.waiters b = [] ∧ t.1.Settled b) :
    (∀ q, t.2.inside b q = none) ∧ g.lists (rwq b) = [] :=
  ⟨(vacant_iff hL).mp h.1, (waiters_eq hI hb).symm.trans h.2.1⟩

/-- Every step keeps the books of every blocker, under the conditions. -/
theorem BookStep.of_move {t : Xinu × Books} (hG : Good w g t.1) (hG' : Good w g' s')
    (hL : Ledger b g t.2) (hb : ValidRwb b) (hfair : Fair b t l) (hflag : FlagFits b t l)
    (hleave : LeavesSettled b t l) (hkill : KillFits b t l)
    (hlinked : l = .cont → ∀ pid ∈ t.1.victim, t.1.Linked pid) (hm : g.BlockMove t.1 l g') :
    BookStep b t l g g' (t.2.record t.1 l s') := by
  have hI := hG.ok.inv
  have hI' := hG'.ok.inv
  cases hm with
  | keep hl h =>
      rw [record_off hl]
      exact BookStep.same hG hL hb h hI'
  | born hdead hpid => exact BookStep.born hG hL hb hdead hI'
  | kill hnull h => exact BookStep.kill hG hL hb h hI'
  | create hcount hrwb hfree =>
      refine BookStep.manage hG hL hb hrwb (View.local_create g _ _) ?_ ?_ ?_ hI'
      · rfl
      · exact fun _ _ => rfl
      · intro hne
        rw [hne] at hfree ⊢
        have hidle := hL.idle hfree
        refine ⟨hidle.2, hidle.1, hidle.1, ?_⟩
        rw [View.create_tab]
        exact hfair hne
  | @delete rwb hu =>
      apply BookStep.manage hG hL hb hu.1 (View.local_delete g rwb) (View.delete_frames g rwb)
      · exact fun q => View.delete_flags g rwb
      · intro hne
        have hunused := unused_of_fair hI hL hb (hfair hne)
        rw [hne, View.delete_queue, hunused.2]
        exact ⟨hunused.1, rfl, List.drop_nil, (View.delete_tab g b).2⟩
      · exact hI'
  | @reset rwb count hcount hu =>
      apply BookStep.manage hG hL hb hu.1 (View.local_reset g rwb count)
        (View.reset_frames g rwb count)
      · intro q _
        rw [View.reset_flags]
      · intro hne
        have hunused := unused_of_fair hI hL hb (hfair hne).1
        rw [hne, View.reset_queue, View.reset_tab]
        exact ⟨hunused.1, hunused.2, rfl, (hfair hne).2⟩
      · exact hI'
  | tryread hu => exact BookStep.tryread hG hL hb hu hI' hfair
  | trywrite hu => exact BookStep.trywrite hG hL hb hu hI' hfair
  | signal hu => exact BookStep.signalrwb hG hL hb hu hI' hflag hleave
  | writer hs hv =>
      rw [record_cont hv]
      exact BookStep.signalWriter hG hL hb hs hI'
  | reader hs hv =>
      rw [record_cont hv]
      exact BookStep.signalReader hG hL hb hs hI'
  | @killSent pid rest hs hv =>
      have hrecord : t.2.record t.1 .cont s' = (t.2.releases t.1 s').drops pid := by
        unfold Books.record
        dsimp only
        rw [hv]
      rw [hrecord]
      exact BookStep.killState hG hL hb (hlinked rfl pid hv) hv (hkill.victim hv) hs hI'
  | killSignaled hs hv =>
      rw [record_cont hv]
      exact BookStep.killSignaled hG hL hb hs hI'

end

end BbbXinu
