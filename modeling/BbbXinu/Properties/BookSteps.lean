import BbbXinu.Properties.Ledger

/-!
# Steps keep the books

Under the conditions on entering, leaving and killing, each step keeps the
ledger of a blocker; readers and writers stay apart, and no process is left
waiting for nobody.
-/

namespace BbbXinu

open LinkedLists KeyedLists Runs

/-- A writer is alone inside. -/
def Apart (b : Int) (k : Books) : Prop :=
  ∀ p q, k.inside b p = some .writer → k.inside b q ≠ none → q = p

/-- Whoever waits, waits for somebody, and a writer is first where readers could
go on. -/
def Awake (b : Int) (g : View) : Prop :=
  g.Settled b → ∀ n rest, g.lists (rwq b) = n :: rest →
    (g.tab b).rwcount ≠ 0 ∧ (0 < (g.tab b).rwcount → g.flags n = -1)

section

variable {w : Watch} {g g' : View} {s s' : Xinu} {b p pid thisid n rwb : Int} {r : Role}
  {k k' : Books} {rest : List Int} {fs : List Frame} {l : Label}

/-!
## Readers and writers
-/

theorem weight_writer (h : Apart b k) (hp : ValidPid p) (hin : k.inside b p = some .writer) :
    k.weight b = -1 := by
  have hsum := sum_map_single (f := k.share b) nodup_allPids (mem_allPids.mpr hp) fun q hq =>
    share_none (not_not.mp fun hne => hq (h p q hin hne))
  exact hsum.trans (share_some hin)

theorem weight_reader (h : ∀ q, k.inside b q ≠ some .writer) (hp : ValidPid p)
    (hin : k.inside b p = some .reader) : 1 ≤ k.weight b := by
  have hshare : ∀ q, 0 ≤ k.share b q := by
    intro q
    cases hq : k.inside b q with
    | none =>
        rw [share_none hq]
    | some r =>
        rw [share_some hq]
        cases r with
        | reader => decide
        | writer => exact absurd hq (h q)
  have hsum := le_sum_map (f := k.share b) (mem_allPids.mpr hp) hshare
  rw [share_some hin] at hsum
  exact hsum

theorem Ledger.valid (h : Ledger b g k) (hin : k.inside b p = some r) : ValidPid p := by
  apply (h.active p (Or.inl ?_)).valid
  rw [hin]
  exact fun h => by cases h

/-- A balance that is not negative means that no writer is inside. -/
theorem Apart.no_writer (h : Apart b k) (hL : Ledger b g k) (hweight : 0 ≤ k.weight b) :
    ∀ q, k.inside b q ≠ some .writer := by
  intro q hq
  have hneg := weight_writer h (hL.valid hq) hq
  omega

/-- A balance of 0 means that nobody is inside. -/
theorem Apart.vacant (h : Apart b k) (hL : Ledger b g k) (hweight : k.weight b = 0) :
    ∀ q, k.inside b q = none := by
  have hno := h.no_writer hL (Int.le_of_eq hweight.symm)
  intro q
  cases hq : k.inside b q with
  | none => rfl
  | some r =>
      cases r with
      | reader =>
          have hpos := weight_reader hno (hL.valid hq) hq
          omega
      | writer => exact absurd hq (hno q)

theorem Apart.congr (h : Apart b k) (hin : ∀ q, k'.inside b q = k.inside b q) : Apart b k' := by
  intro p q hp hq
  rw [hin] at hp hq
  exact h p q hp hq

/-- A reader may join readers, and a writer nobody. -/
theorem apart_admit
    (hreader : r = .reader → ∀ q, k.inside b q ≠ some .writer)
    (hwriter : r = .writer → ∀ q, k.inside b q = none)
    (hin : k'.inside b pid = some r) (hin' : ∀ q, q ≠ pid → k'.inside b q = k.inside b q) :
    Apart b k' := by
  intro p q hp hq
  cases r with
  | reader =>
      by_cases hne : p = pid
      · rw [hne, hin] at hp
        cases hp
      · rw [hin' p hne] at hp
        exact absurd hp (hreader rfl p)
  | writer =>
      have hpid : ∀ q, k'.inside b q ≠ none → q = pid := by
        intro q hq
        by_contra hne
        rw [hin' q hne] at hq
        exact hq (hwriter rfl q)
      rw [hpid q hq]
      refine (hpid p ?_).symm
      rw [hp]
      exact fun h => by cases h

/-- When a process has left, no writer is inside. -/
theorem Apart.leave (h : Apart b k) (hpid : k.inside b pid ≠ none)
    (hout : k'.inside b pid = none) (hin' : ∀ q, q ≠ pid → k'.inside b q = k.inside b q) :
    Apart b k' ∧ ∀ q, k'.inside b q ≠ some .writer := by
  have hno : ∀ q, k'.inside b q ≠ some .writer := by
    intro q hq
    have hne : q ≠ pid := by
      rintro rfl
      rw [hout] at hq
      cases hq
    rw [hin' q hne] at hq
    exact hne (h q pid hq hpid).symm
  exact ⟨fun p q hp => absurd hp (hno p), hno⟩

/-!
## The record of a step
-/

theorem able_curr (hG : Good w g s) : Able g s.currpid where
  valid := hG.ok.inv.valid_curr
  live := (hG.ok.inv.live s.currpid).mpr (by
    rw [hG.ok.curr]
    exact fun h => by cases h)
  free := fun h => by
    have hready := (hG.ok.inv.limbo s.currpid h).2.2
    rw [hG.ok.curr] at hready
    cases hready

/-- A process on a blocker's queue waits on it. -/
theorem wait_of_mem (hI : Inv w g EMPTY s) (hb : ValidRwb b) (hp : p ∈ g.lists (rwq b)) :
    (s.proctab p).prstate = .wait := by
  rw [← hI.lists_eq _ (rwq_ne_readylist hb)] at hp
  have hhome := ((hI.mem_iff _ p).mp hp).1
  cases hstate : (s.proctab p).prstate with
  | wait => rfl
  | ready =>
      rw [home_ready hstate] at hhome
      exact absurd (Option.some.inj hhome).symm (rwq_ne_readylist hb)
  | sleep =>
      rw [home_sleep (Or.inl hstate)] at hhome
      exact absurd (Option.some.inj hhome).symm (rwq_ne_sleepq hb)
  | rectim =>
      rw [home_sleep (Or.inr hstate)] at hhome
      exact absurd (Option.some.inj hhome).symm (rwq_ne_sleepq hb)
  | free =>
      unfold home at hhome
      rw [hstate] at hhome
      cases hhome
  | curr =>
      unfold home at hhome
      rw [hstate] at hhome
      cases hhome
  | recv =>
      unfold home at hhome
      rw [hstate] at hhome
      cases hhome
  | susp =>
      unfold home at hhome
      rw [hstate] at hhome
      cases hhome

/-- A process waits on one queue. -/
theorem waiting_unique {b' : Int} (hI : Inv w g EMPTY s) (hb : ValidRwb b) (hb' : ValidRwb b')
    (hp : p ∈ g.lists (rwq b)) (hp' : p ∈ g.lists (rwq b')) : b = b' := by
  rw [← hI.lists_eq _ (rwq_ne_readylist hb)] at hp
  rw [← hI.lists_eq _ (rwq_ne_readylist hb')] at hp'
  have hhome := ((hI.mem_iff _ p).mp hp).1
  rw [((hI.mem_iff _ p).mp hp').1] at hhome
  exact rwq_inj (Option.some.inj hhome).symm

theorem able_waiting (hI : Inv w g EMPTY s) (hb : ValidRwb b) (hp : p ∈ g.lists (rwq b)) :
    Able g p := by
  have hwait := wait_of_mem hI hb hp
  refine ⟨?_, ?_, ?_⟩
  · rw [← hI.lists_eq _ (rwq_ne_readylist hb)] at hp
    exact (hI.home_queue p _ ((hI.mem_iff _ p).mp hp).1).1
  · rw [hI.live, hwait]
    exact fun h => by cases h
  · intro h
    have hready := (hI.limbo p h).2.2
    rw [hwait] at hready
    cases hready

theorem curr_not_waiting (hG : Good w g s) (hb : ValidRwb b) :
    s.currpid ∉ g.lists (rwq b) := by
  intro h
  have hwait := wait_of_mem hG.ok.inv hb h
  rw [hG.ok.curr] at hwait
  cases hwait

/-- The head of a queue is on it once. -/
theorem head_not_mem (hI : Inv w g EMPTY s) (hb : ValidRwb b)
    (hqueue : g.lists (rwq b) = n :: rest) : n ∉ rest := by
  have hnodup := hI.queues.nodup (isQueue_rwq hb)
  rw [hI.lists_eq _ (rwq_ne_readylist hb), hqueue] at hnodup
  exact (List.nodup_cons.mp hnodup).1

theorem releases_inside (hI : Inv w g EMPTY s) (hI' : Inv w g' EMPTY s') (hb : ValidRwb b)
    (k : Books) (p : Int) : (k.releases s s').inside b p =
      if p ∈ g.lists (rwq b) ∧ p ∉ g'.lists (rwq b) then some (k.want p)
      else k.inside b p := by
  unfold Books.releases
  dsimp only
  rw [waiters_eq hI hb, waiters_eq hI' hb]

/-- Nobody leaves a queue that only grows. -/
theorem releases_grow (hI : Inv w g EMPTY s) (hI' : Inv w g' EMPTY s') (hb : ValidRwb b)
    (k : Books) (hsub : ∀ q ∈ g.lists (rwq b), q ∈ g'.lists (rwq b)) (q : Int) :
    (k.releases s s').inside b q = k.inside b q := by
  rw [releases_inside hI hI' hb]
  exact if_neg fun h => h.2 (hsub q h.1)

/-- The head of the queue leaves it. -/
theorem releases_head (hI : Inv w g EMPTY s) (hI' : Inv w g' EMPTY s') (hb : ValidRwb b)
    (k : Books) (hqueue : g.lists (rwq b) = n :: rest) (hrest : g'.lists (rwq b) = rest) :
    (k.releases s s').inside b n = some (k.want n) ∧
      ∀ q, q ≠ n → (k.releases s s').inside b q = k.inside b q := by
  have hoff := head_not_mem hI hb hqueue
  constructor
  · rw [releases_inside hI hI' hb, hqueue, hrest]
    exact if_pos ⟨List.mem_cons_self, hoff⟩
  · intro q hq
    rw [releases_inside hI hI' hb, hqueue, hrest]
    apply if_neg
    intro h
    exact h.2 ((List.mem_cons.mp h.1).resolve_left hq)

theorem record_off (h : s.OffBlockers l) : k.record s l s' = k.releases s s' := by
  cases l with
  | call c =>
      cases c with
      | rwbTryread rwb =>
          show (k.tries s rwb _ _).releases s s' = _
          unfold Books.tries
          rw [if_pos (by exact h)]
      | rwbTrywrite rwb =>
          show (k.tries s rwb _ _).releases s s' = _
          unfold Books.tries
          rw [if_pos (by exact h)]
      | signalrwb rwb =>
          show (k.leaves s rwb).releases s s' = _
          unfold Books.leaves
          rw [if_pos (by exact h)]
      | _ => rfl
  | cont =>
      unfold Books.record
      dsimp only
      rw [show s.victim = none from h]

theorem tries_inside_of_ne (hne : b ≠ rwb) (c : Call) (r : Role) (q : Int) :
    (k.tries s rwb r c).inside b q = k.inside b q := by
  unfold Books.tries
  split
  · rfl
  · dsimp only
    split
    · rfl
    · exact congrFun (upd_of_ne hne) q

theorem tries_want (hbad : ¬ s.isbadrwb rwb) (c : Call) (r : Role) :
    (k.tries s rwb r c).want = upd k.want s.currpid r := by
  unfold Books.tries
  rw [if_neg hbad]
  dsimp only
  split
  · rfl
  · rfl

theorem tries_block (hbad : ¬ s.isbadrwb rwb) {c : Call} (hblock : s.blocks c) (r : Role)
    (q : Int) : (k.tries s rwb r c).inside b q = k.inside b q := by
  unfold Books.tries
  rw [if_neg hbad]
  dsimp only
  rw [if_pos hblock]

theorem tries_enter (hbad : ¬ s.isbadrwb rwb) {c : Call} (henter : ¬ s.blocks c) (r : Role) :
    (k.tries s rwb r c).inside rwb s.currpid = some r ∧
      ∀ q, q ≠ s.currpid → (k.tries s rwb r c).inside rwb q = k.inside rwb q := by
  unfold Books.tries
  rw [if_neg hbad]
  dsimp only
  rw [if_neg henter]
  unfold Books.setInside
  dsimp only
  rw [upd_self]
  exact ⟨upd_self, fun q hq => upd_of_ne hq⟩

theorem leaves_inside (hbad : ¬ s.isbadrwb rwb) :
    (k.leaves s rwb).inside rwb s.currpid = none ∧
      (∀ q, q ≠ s.currpid → (k.leaves s rwb).inside rwb q = k.inside rwb q) ∧
      (∀ b, b ≠ rwb → (k.leaves s rwb).inside b = k.inside b) ∧
      (k.leaves s rwb).want = k.want := by
  unfold Books.leaves
  rw [if_neg hbad]
  unfold Books.setInside
  dsimp only
  rw [upd_self]
  exact ⟨upd_self, fun q hq => upd_of_ne hq, fun b hb => upd_of_ne hb, rfl⟩

/-!
## Frames of signals
-/

theorem signalsOn_frames (hI : Inv w g EMPTY s) (b p : Int) :
    signalsOn b (g.frames p) = signalsOn b (s.stack p) := by
  rw [← hI.frames p]
  unfold signalsOn
  rw [List.filter_filter]
  apply List.filter_congr
  intro f _
  cases f with
  | rwbWriter thisid rwb => exact Bool.and_true _
  | rwbReader thisid rwb => exact Bool.and_true _
  | _ => rfl

theorem settled_iff (hI : Inv w g EMPTY s) (hL : Ledger b g k) : s.Settled b ↔ g.Settled b := by
  constructor
  · intro h p
    by_contra hne
    apply hne
    rw [signalsOn_frames hI]
    exact h p (mem_allPids.mpr (hL.active p (Or.inr hne)).valid)
  · intro h p _
    rw [← signalsOn_frames hI]
    exact h p

theorem vacant_iff (hL : Ledger b g k) : k.Vacant b ↔ ∀ q, k.inside b q = none := by
  constructor
  · intro h q
    by_contra hne
    exact hne (h q (mem_allPids.mpr (hL.active q (Or.inl hne)).valid))
  · exact fun h q _ => h q

theorem not_settled_release (r : Role) (thisid : Int) :
    ¬ (g.release pid b (r.frame thisid b)).Settled b := by
  intro h
  have hpid := h pid
  rw [View.release_frames, upd_self] at hpid
  unfold signalsOn at hpid
  rw [List.filter_cons_of_pos] at hpid
  · cases hpid
  · rw [signals_frame]
    exact decide_eq_true rfl

theorem flag_cases (r : Role) : r.flag = 1 ∨ r.flag = -1 := by
  cases r with
  | reader => exact Or.inl rfl
  | writer => exact Or.inr rfl

/-!
## The rest of a signal
-/

/-- What holds of a blocker after a step, and what else it keeps. -/
structure BookStep (b : Int) (t : Xinu × Books) (l : Label) (g g' : View) (k' : Books) :
    Prop where
  ledger : Ledger b g' k'
  apart : EntersSettled b t l → Apart b t.2 → Apart b k'
  awake : t.1.victim = none → Apart b t.2 → Counts g b → Awake b g → Awake b g'

/-- A signal whose caller has left releases nobody or the first in the queue. -/
theorem Ledger.releases {g₁ : View} (hL : Ledger b g₁ k) (hs : g₁.Settled b)
    (hcur : Able g₁ pid) (hr : Releases g₁ pid thisid b g')
    (hlists : g₁.lists (rwq b) = g.lists (rwq b)) (hable : ∀ q ∈ g.lists (rwq b), Able g₁ q)
    (hI : Inv w g EMPTY s) (hI' : Inv w g' EMPTY s') (hb : ValidRwb b) :
    Ledger b g' (k.releases s s') ∧
      ((∀ q, k.inside b q ≠ some .writer) → Apart b k → Apart b (k.releases s s')) ∧
      Awake b g' := by
  have hkeep : (k.releases s s').want = k.want := rfl
  cases hr with
  | none hstop =>
      have hin := releases_grow hI hI' hb k (by
        rw [hlists]
        exact fun _ h => h)
      refine ⟨?_, ?_, ?_⟩
      · exact hL.congr rfl rfl (fun _ => rfl) hin (fun _ _ h => h) fun _ _ => ⟨rfl, rfl⟩
      · exact fun _ h => h.congr hin
      · intro _ n rest hqueue
        have hstop' := hstop n rest hqueue
        have hmem : n ∈ g'.lists (rwq b) := by
          rw [hqueue]
          exact List.mem_cons_self
        have hflag : g'.flags n = -1 := by
          have hn := (hL.waiting n hmem).1
          rcases flag_cases (k.want n) with h | h
          · exact absurd (hn.trans h) hstop'.2
          · exact hn.trans h
        exact ⟨hstop'.1 hflag, fun _ => hflag⟩
  | @writer n rest hqueue hflag hcount =>
      have hqueue' : g.lists (rwq b) = n :: rest := hlists.symm.trans hqueue
      have hrest : (g₁.release pid b (.rwbWriter thisid b)).lists (rwq b) = rest := by
        rw [View.release_queue, hqueue]
        rfl
      rcases releases_head hI hI' hb k hqueue' hrest with ⟨hin, hin'⟩
      have hn : Able g₁ n := by
        apply hable
        rw [hqueue']
        exact List.mem_cons_self
      rcases hL.release (r := .writer) hs hcur hn hqueue
        (head_not_mem hI hb hqueue') hflag hkeep hin hin' with ⟨hL', hwant⟩
      rw [hwant] at hin
      refine ⟨hL', ?_, ?_⟩
      · intro _ hapart
        have hweight : k.weight b = 0 := (hL.count_of_settled hs).symm.trans hcount
        apply apart_admit ?_ ?_ hin hin'
        · exact fun h => by cases h
        · exact fun _ => hapart.vacant hL hweight
      · exact fun h => absurd h (not_settled_release .writer thisid)
  | @reader n rest hqueue hflag =>
      have hqueue' : g.lists (rwq b) = n :: rest := hlists.symm.trans hqueue
      have hrest : (g₁.release pid b (.rwbReader thisid b)).lists (rwq b) = rest := by
        rw [View.release_queue, hqueue]
        rfl
      rcases releases_head hI hI' hb k hqueue' hrest with ⟨hin, hin'⟩
      have hn : Able g₁ n := by
        apply hable
        rw [hqueue']
        exact List.mem_cons_self
      rcases hL.release (r := .reader) hs hcur hn hqueue
        (head_not_mem hI hb hqueue') hflag hkeep hin hin' with ⟨hL', hwant⟩
      rw [hwant] at hin
      refine ⟨hL', ?_, ?_⟩
      · intro hno _
        apply apart_admit ?_ ?_ hin hin'
        · exact fun _ => hno
        · exact fun h => by cases h
      · exact fun h => absurd h (not_settled_release .reader thisid)

/-- A move that leaves the blocker alone. -/
theorem BookStep.elsewhere {t : Xinu × Books} (hL : Ledger b g t.2)
    (htab : g'.tab b = g.tab b) (hlists : g'.lists (rwq b) = g.lists (rwq b))
    (hframes : ∀ q, signalsOn b (g'.frames q) = signalsOn b (g.frames q))
    (hin : ∀ q, k'.inside b q = t.2.inside b q)
    (hable : ∀ q, t.2.inside b q ≠ none ∨ signalsOn b (g.frames q) ≠ [] →
      Able g q → Able g' q)
    (hflags : ∀ q ∈ g.lists (rwq b), g'.flags q = g.flags q ∧ k'.want q = t.2.want q) :
    BookStep b t l g g' k' where
  ledger := hL.congr htab hlists hframes hin hable hflags
  apart := fun _ h => h.congr hin
  awake := by
    intro _ _ _ h hs n rest hqueue
    rw [hlists] at hqueue
    have hmem : n ∈ g.lists (rwq b) := by
      rw [hqueue]
      exact List.mem_cons_self
    rw [htab, (hflags n hmem).1]
    exact h (fun q => (hframes q).symm.trans (hs q)) n rest hqueue

/-- A call on another blocker. -/
theorem BookStep.of_local {t : Xinu × Books} (hL : Ledger b g t.2) (hl : View.Local rwb g g')
    (hne : b ≠ rwb) (hframes : ∀ q, signalsOn b (g'.frames q) = signalsOn b (g.frames q))
    (hin : ∀ q, k'.inside b q = t.2.inside b q)
    (hflags : ∀ q ∈ g.lists (rwq b), g'.flags q = g.flags q ∧ k'.want q = t.2.want q) :
    BookStep b t l g g' k' := by
  apply BookStep.elsewhere hL (hl.tab b hne) (hl.lists _ fun h => hne (rwq_inj h)) hframes hin
  · intro q _ hq
    refine ⟨hq.valid, ?_, ?_⟩
    · rw [hl.live]
      exact hq.live
    · rw [hl.limbo]
      exact hq.free
  · exact hflags

end

end BbbXinu
