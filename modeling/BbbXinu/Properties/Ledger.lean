import BbbXinu.Properties.QueueCount

/-!
# The count of a blocker is the balance of its books

Between signals {lit}`rwcount` is the sum of the shares of the processes inside.
A signal that has released a process counts it in only when the signalling
process runs again; until then the balance is off by one share.
-/

namespace BbbXinu

open LinkedLists KeyedLists Runs

/-- A process that can act or wait. -/
structure Able (g : View) (p : Int) : Prop where
  valid : ValidPid p
  live : g.live p
  free : ¬ g.limbo p

/-- No signal on the blocker is half finished. -/
def View.Settled (g : View) (b : Int) : Prop := ∀ p, signalsOn b (g.frames p) = []

/-- One signal on the blocker is half finished. -/
structure View.Half (g : View) (b p : Int) (f : Frame) : Prop where
  here : signalsOn b (g.frames p) = [f]
  elsewhere : ∀ q, q ≠ p → signalsOn b (g.frames q) = []

/-- The count, up to the share of a released process. -/
inductive Balanced (b : Int) (g : View) (k : Books) : Prop where
  | settled (h : g.Settled b) (hcount : (g.tab b).rwcount = k.weight b)
  | half {p thisid : Int} {r : Role} (h : g.Half b p (r.frame thisid b))
      (hcount : (g.tab b).rwcount + r.flag = k.weight b)
      (hin : ∃ q, k.inside b q = some r)

/-- The books of one blocker agree with the view. -/
structure Ledger (b : Int) (g : View) (k : Books) : Prop where
  waiting : ∀ p ∈ g.lists (rwq b), g.flags p = (k.want p).flag ∧ k.inside b p = none
  active : ∀ p, k.inside b p ≠ none ∨ signalsOn b (g.frames p) ≠ [] → Able g p
  idle : (g.tab b).rwstate = .free → g.lists (rwq b) = [] ∧ ∀ p, k.inside b p = none
  balanced : Balanced b g k

section

variable {w : Watch} {g g' : View} {s s' : Xinu} {b p pid thisid n : Int} {r : Role}
  {k k' : Books} {rest : List Int} {fs : List Frame}

/-!
## Shares
-/

theorem nodup_allPids : Xinu.allPids.Nodup :=
  List.Nodup.map (fun _ _ h => Int.ofNat.inj h) List.nodup_range

theorem mem_allPids : p ∈ Xinu.allPids ↔ ValidPid p := by
  unfold Xinu.allPids ValidPid
  rw [List.mem_map]
  constructor
  · rintro ⟨n, hn, rfl⟩
    have hlt := List.mem_range.mp hn
    unfold NPROC at hlt ⊢
    exact ⟨Int.natCast_nonneg n, Int.ofNat_lt.mpr hlt⟩
  · rintro ⟨h0, h1⟩
    refine ⟨p.toNat, ?_, Int.toNat_of_nonneg h0⟩
    rw [List.mem_range]
    unfold NPROC at h1 ⊢
    omega

/-- The share of one process. -/
def Books.share (k : Books) (b p : Int) : Int := ((k.inside b p).map Role.flag).getD 0

theorem share_none (h : k.inside b p = none) : k.share b p = 0 := by
  unfold Books.share
  rw [h]
  rfl

theorem share_some (h : k.inside b p = some r) : k.share b p = r.flag := by
  unfold Books.share
  rw [h]
  rfl

theorem weight_congr (h : ∀ q, k'.inside b q = k.inside b q) : k'.weight b = k.weight b := by
  unfold Books.weight
  apply congrArg List.sum
  apply List.map_congr_left
  intro q _
  rw [h q]

/-- A process takes a share or gives it back. -/
theorem weight_change (hp : ValidPid p) (h : ∀ q, q ≠ p → k'.inside b q = k.inside b q) :
    k'.weight b = k.weight b + (k'.share b p - k.share b p) := by
  apply sum_map_change nodup_allPids (mem_allPids.mpr hp)
  intro q hq
  rw [h q hq]

theorem weight_vacant (h : ∀ q, k.inside b q = none) : k.weight b = 0 := by
  have hsum := sum_map_single (f := k.share b) nodup_allPids
    (mem_allPids.mpr ⟨Int.le_refl 0, by decide⟩) fun q _ => share_none (h q)
  exact hsum.trans (share_none (h 0))

/-!
## Moves that the books do not see
-/

theorem signalsOn_cons_of_not {f : Frame} (h : f.signals b = false) :
    signalsOn b (f :: fs) = signalsOn b fs := by
  unfold signalsOn
  rw [List.filter_cons_of_neg]
  rw [h]
  exact Bool.false_ne_true

theorem signals_frame (r : Role) (thisid b b' : Int) :
    (r.frame thisid b').signals b = decide (b' = b) := by
  cases r with
  | reader => rfl
  | writer => rfl

theorem Balanced.congr (h : Balanced b g k) (htab : (g'.tab b).rwcount = (g.tab b).rwcount)
    (hframes : ∀ q, signalsOn b (g'.frames q) = signalsOn b (g.frames q))
    (hin : ∀ q, k'.inside b q = k.inside b q) : Balanced b g' k' := by
  have hweight := weight_congr hin
  cases h with
  | settled h hcount =>
      apply Balanced.settled
      · exact fun q => (hframes q).trans (h q)
      · rw [htab, hweight, hcount]
  | @half p thisid r h hcount hin' =>
      apply Balanced.half (p := p) (r := r)
      · exact ⟨(hframes p).trans h.here, fun q hq => (hframes q).trans (h.elsewhere q hq)⟩
      · rw [htab, hweight, hcount]
      · rcases hin' with ⟨q, hq⟩
        exact ⟨q, (hin q).trans hq⟩

/-- The blocker, its queue and whoever is inside stay as they are. -/
theorem Ledger.congr (h : Ledger b g k) (htab : g'.tab b = g.tab b)
    (hlists : g'.lists (rwq b) = g.lists (rwq b))
    (hframes : ∀ q, signalsOn b (g'.frames q) = signalsOn b (g.frames q))
    (hin : ∀ q, k'.inside b q = k.inside b q)
    (hable : ∀ q, k.inside b q ≠ none ∨ signalsOn b (g.frames q) ≠ [] → Able g q → Able g' q)
    (hflags : ∀ q ∈ g.lists (rwq b), g'.flags q = g.flags q ∧ k'.want q = k.want q) :
    Ledger b g' k' where
  waiting := by
    intro q hq
    rw [hlists] at hq
    rw [(hflags q hq).1, (hflags q hq).2, hin q]
    exact h.waiting q hq
  active := by
    intro q hq
    rw [hin q, hframes q] at hq
    exact hable q hq (h.active q hq)
  idle := by
    rw [htab, hlists]
    intro hf
    exact ⟨(h.idle hf).1, fun q => (hin q).trans ((h.idle hf).2 q)⟩
  balanced := h.balanced.congr (by rw [htab]) hframes hin

theorem Ledger.settled_of_vacant (h : Ledger b g k) (hvac : ∀ q, k.inside b q = none) :
    g.Settled b := by
  cases h.balanced with
  | settled h hcount => exact h
  | half h hcount hin =>
      rcases hin with ⟨q, hq⟩
      rw [hvac q] at hq
      cases hq

theorem Ledger.used (h : Ledger b g k) (hin : k.inside b p ≠ none) :
    (g.tab b).rwstate ≠ .free :=
  fun hf => hin ((h.idle hf).2 p)

theorem Ledger.count_of_settled (h : Ledger b g k) (hs : g.Settled b) :
    (g.tab b).rwcount = k.weight b := by
  cases h.balanced with
  | settled _ hcount => exact hcount
  | @half p thisid r hhalf hcount hin =>
      have hhere := hhalf.here
      rw [hs p] at hhere
      cases hhere

/-!
## Entering and waiting
-/

/-- A try lets its caller in. -/
theorem Ledger.enter (h : Ledger b g k) (hpid : Able g pid) (hout : k.inside b pid = none)
    (hoff : pid ∉ g.lists (rwq b)) (hu : (g.tab b).rwstate ≠ .free)
    (htab : g'.tab b = { g.tab b with rwcount := (g.tab b).rwcount + r.flag })
    (hlists : g'.lists (rwq b) = g.lists (rwq b)) (hframes : g'.frames = g.frames)
    (hable : ∀ q, Able g q → Able g' q)
    (hflags : ∀ q, q ≠ pid → g'.flags q = g.flags q ∧ k'.want q = k.want q)
    (hin : k'.inside b pid = some r) (hin' : ∀ q, q ≠ pid → k'.inside b q = k.inside b q) :
    Ledger b g' k' := by
  have hweight : k'.weight b = k.weight b + r.flag := by
    rw [weight_change hpid.valid hin', share_some hin, share_none hout]
    omega
  constructor
  · intro q hq
    rw [hlists] at hq
    have hne : q ≠ pid := fun he => hoff (he ▸ hq)
    rw [(hflags q hne).1, (hflags q hne).2, hin' q hne]
    exact h.waiting q hq
  · intro q hq
    by_cases hne : q = pid
    · rw [hne]
      exact hable pid hpid
    · rw [hin' q hne, hframes] at hq
      exact hable q (h.active q hq)
  · intro hf
    rw [htab] at hf
    exact absurd hf hu
  · cases h.balanced with
    | settled hs hcount =>
        apply Balanced.settled
        · intro q
          rw [hframes]
          exact hs q
        · rw [htab, hweight, ← hcount]
    | @half p thisid r' hs hcount hin₀ =>
        apply Balanced.half (p := p) (r := r')
        · constructor
          · rw [hframes]
            exact hs.here
          · intro q hq
            rw [hframes]
            exact hs.elsewhere q hq
        · rw [htab, hweight, ← hcount]
          show (g.tab b).rwcount + r.flag + r'.flag = (g.tab b).rwcount + r'.flag + r.flag
          omega
        · rcases hin₀ with ⟨q, hq⟩
          have hne : q ≠ pid := by
            rintro rfl
            rw [hout] at hq
            cases hq
          exact ⟨q, (hin' q hne).trans hq⟩

/-- A try queues its caller. -/
theorem Ledger.block (h : Ledger b g k) (hout : k.inside b pid = none)
    (hoff : pid ∉ g.lists (rwq b)) (hu : (g.tab b).rwstate ≠ .free)
    (hin : ∀ q, k'.inside b q = k.inside b q) (hwant : k'.want = upd k.want pid r) :
    Ledger b ((g.setFlag pid r.flag).block pid b) k' := by
  have htab := View.block_tab (g.setFlag pid r.flag) pid b
  have hqueue : ((g.setFlag pid r.flag).block pid b).lists (rwq b) =
      g.lists (rwq b) ++ [pid] := View.block_queue (g.setFlag pid r.flag) pid b
  constructor
  · intro q hq
    rw [hqueue] at hq
    show upd g.flags pid r.flag q = _ ∧ _
    rw [hwant, hin q, upd_apply, upd_apply]
    rcases List.mem_append.mp hq with hq | hq
    · have hne : q ≠ pid := fun he => hoff (he ▸ hq)
      rw [if_neg hne, if_neg hne]
      exact h.waiting q hq
    · rw [List.mem_singleton.mp hq, if_pos rfl, if_pos rfl]
      exact ⟨rfl, hout⟩
  · intro q hq
    rw [hin q] at hq
    have hq' := h.active q hq
    exact ⟨hq'.valid, hq'.live, hq'.free⟩
  · intro hf
    rw [htab] at hf
    exact absurd hf hu
  · refine h.balanced.congr ?_ ?_ hin
    · rw [htab]
      rfl
    · exact fun _ => rfl

/-!
## Leaving and releasing
-/

/-- A process gives its share back while no signal is half finished. -/
theorem Ledger.leave (h : Ledger b g k) (hs : g.Settled b) (hin : k.inside b pid = some r)
    (htab : g'.tab b = { g.tab b with rwcount := (g.tab b).rwcount - r.flag })
    (hlists : g'.lists (rwq b) = g.lists (rwq b)) (hframes : g'.frames = g.frames)
    (hable : ∀ q, Able g q → Able g' q)
    (hflags : ∀ q, q ≠ pid → g'.flags q = g.flags q) (hwant : k'.want = k.want)
    (hout : k'.inside b pid = none) (hin' : ∀ q, q ≠ pid → k'.inside b q = k.inside b q) :
    Ledger b g' k' := by
  have hne_none : k.inside b pid ≠ none := by
    rw [hin]
    exact fun h => by cases h
  have hpid := h.active pid (Or.inl hne_none)
  have hoff : pid ∉ g.lists (rwq b) := fun hm => hne_none (h.waiting pid hm).2
  have hweight : k'.weight b = k.weight b - r.flag := by
    rw [weight_change hpid.valid hin', share_none hout, share_some hin]
    omega
  constructor
  · intro q hq
    rw [hlists] at hq
    have hne : q ≠ pid := fun he => hoff (he ▸ hq)
    rw [hflags q hne, hwant, hin' q hne]
    exact h.waiting q hq
  · intro q hq
    by_cases hne : q = pid
    · rw [hne]
      exact hable pid hpid
    · rw [hin' q hne, hframes] at hq
      exact hable q (h.active q hq)
  · intro hf
    rw [htab] at hf
    exact absurd hf (h.used hne_none)
  · apply Balanced.settled
    · intro q
      rw [hframes]
      exact hs q
    · rw [htab, hweight, ← h.count_of_settled hs]

/-- The first process of the queue is released in its role. -/
theorem Ledger.release (h : Ledger b g k) (hs : g.Settled b) (hpid : Able g pid)
    (hn : Able g n) (hqueue : g.lists (rwq b) = n :: rest) (hoff : n ∉ rest)
    (hflag : g.flags n = r.flag) (hwant : k'.want = k.want)
    (hin : k'.inside b n = some (k.want n))
    (hin' : ∀ q, q ≠ n → k'.inside b q = k.inside b q) :
    Ledger b (g.release pid b (r.frame thisid b)) k' ∧ k.want n = r := by
  have hmem : n ∈ g.lists (rwq b) := by
    rw [hqueue]
    exact List.mem_cons_self
  have hrole : k.want n = r := Role.flag_inj ((h.waiting n hmem).1.symm.trans hflag)
  rw [hrole] at hin
  have hweight : k'.weight b = k.weight b + r.flag := by
    rw [weight_change hn.valid hin', share_some hin, share_none (h.waiting n hmem).2]
    omega
  have htab := View.release_tab g pid b (r.frame thisid b)
  have hrest : (g.release pid b (r.frame thisid b)).lists (rwq b) = rest := by
    rw [View.release_queue, hqueue]
    rfl
  have hframe : signalsOn b (r.frame thisid b :: g.frames pid) = [r.frame thisid b] := by
    unfold signalsOn
    rw [List.filter_cons_of_pos]
    · exact congrArg _ (hs pid)
    · rw [signals_frame]
      exact decide_eq_true rfl
  refine ⟨?_, hrole⟩
  constructor
  · intro q hq
    rw [hrest] at hq
    have hne : q ≠ n := fun he => hoff (he ▸ hq)
    rw [hwant, hin' q hne]
    apply h.waiting q
    rw [hqueue]
    exact List.mem_cons_of_mem n hq
  · intro q hq
    have hq' : Able g q := by
      by_cases hne : q = n
      · rw [hne]
        exact hn
      · by_cases hcur : q = pid
        · rw [hcur]
          exact hpid
        · rw [hin' q hne, View.release_frames, upd_of_ne hcur] at hq
          exact h.active q hq
    exact ⟨hq'.valid, hq'.live, hq'.free⟩
  · intro hf
    rw [htab] at hf
    have hnil := (h.idle hf).1
    rw [hqueue] at hnil
    cases hnil
  · apply Balanced.half (p := pid) (r := r)
    · constructor
      · rw [View.release_frames, upd_self]
        exact hframe
      · intro q hq
        rw [View.release_frames, upd_of_ne hq]
        exact hs q
    · rw [htab, hweight, ← h.count_of_settled hs]
    · exact ⟨n, hin⟩

/-- A half-finished signal counts the released process in. -/
theorem Ledger.finish (h : Ledger b g k) (hfs : g.frames pid = r.frame thisid b :: fs) :
    Ledger b ((g.setFrames pid fs).setRwb b fun e => { e with rwcount := e.rwcount + r.flag })
        k ∧
      ((g.setFrames pid fs).setRwb b fun e =>
        { e with rwcount := e.rwcount + r.flag }).Settled b ∧
      ∃ q, k.inside b q = some r := by
  have hsignals : (r.frame thisid b).signals b = true := by
    rw [signals_frame]
    exact decide_eq_true rfl
  have hframe : signalsOn b (g.frames pid) = r.frame thisid b :: signalsOn b fs := by
    rw [hfs]
    exact List.filter_cons_of_pos hsignals
  have htab := View.setRwb_at (g.setFrames pid fs) b fun e =>
    { e with rwcount := e.rwcount + r.flag }
  cases h.balanced with
  | settled hs hcount =>
      rw [hs pid] at hframe
      cases hframe
  | @half p thisid' r' hhalf hcount hin =>
      have hp : p = pid := by
        by_contra hne
        have hnil := hhalf.elsewhere pid fun he => hne he.symm
        rw [hnil] at hframe
        cases hframe
      rw [hp] at hhalf
      have hsingle := hhalf.here
      rw [hframe] at hsingle
      have hrest : signalsOn b fs = [] := (List.cons.inj hsingle).2
      have hrole : r' = r := by
        have heq := (List.cons.inj hsingle).1
        cases r with
        | reader =>
            cases r' with
            | reader => rfl
            | writer => cases heq
        | writer =>
            cases r' with
            | reader => cases heq
            | writer => rfl
      rw [hrole] at hcount hin
      have hsettled : ((g.setFrames pid fs).setRwb b fun e =>
          { e with rwcount := e.rwcount + r.flag }).Settled b := by
        intro q
        show signalsOn b (upd g.frames pid fs q) = []
        by_cases hq : q = pid
        · rw [hq, upd_self]
          exact hrest
        · rw [upd_of_ne hq]
          exact hhalf.elsewhere q hq
      refine ⟨?_, hsettled, hin⟩
      constructor
      · exact h.waiting
      · intro q hq
        have hq' := h.active q (hq.imp id fun hne => absurd (hsettled q) hne)
        exact ⟨hq'.valid, hq'.live, hq'.free⟩
      · intro hf
        rw [htab] at hf
        exact h.idle hf
      · apply Balanced.settled hsettled
        rw [htab]
        exact hcount

end

end BbbXinu
