import BbbXinu.Properties.BookMoves

/-!
# Runs with books, and several blockers

A run keeps the ledgers of all blockers as long as each step meets the
conditions.  A run that kills nobody unlinks only processes on their queues.
-/

namespace BbbXinu

open LinkedLists KeyedLists Runs

/-- Nobody is killed. -/
def KillsNobody : Label → Prop
  | .call (.kill _) => False
  | _ => True

instance (l : Label) : Decidable (KillsNobody l) :=
  match l with
  | .call c => by induction c using Call.casesOn <;> unfold KillsNobody <;> infer_instance
  | .cont => inferInstanceAs (Decidable True)

/-- The identifiers of all blockers. -/
def Xinu.allRwbs : List Int := (List.range RWB_COUNT.toNat).map Int.ofNat

/-- Frames of {lit}`kill`. -/
def Frame.kills : Frame → Bool
  | .killSent _ | .killSignaled _ => true
  | _ => false

/-- Nobody has been killed so far. -/
structure Unkilled (g : View) : Prop where
  limbo : ∀ p, ¬ g.limbo p
  frames : ∀ p, ∀ f ∈ g.frames p, f.kills = false

theorem unkilled_boot : Unkilled bootView :=
  ⟨fun _ => id, fun _ _ h => absurd h List.not_mem_nil⟩

section

variable {w : Watch} {g g' : View} {s s' : Xinu} {l : Label} {b pid thisid rwb : Int}
  {fs : List Frame}

theorem mem_allRwbs : b ∈ Xinu.allRwbs ↔ ValidRwb b := by
  unfold Xinu.allRwbs ValidRwb
  rw [List.mem_map]
  constructor
  · rintro ⟨n, hn, rfl⟩
    have hlt := List.mem_range.mp hn
    unfold RWB_COUNT at hlt ⊢
    exact ⟨Int.natCast_nonneg n, Int.ofNat_lt.mpr hlt⟩
  · rintro ⟨h0, h1⟩
    refine ⟨b.toNat, ?_, Int.toNat_of_nonneg h0⟩
    rw [List.mem_range]
    unfold RWB_COUNT at h1 ⊢
    omega

/-!
## Runs that kill nobody
-/

theorem Unkilled.congr (h : Unkilled g) (hlimbo : g'.limbo = g.limbo)
    (hframes : ∀ p, ∀ f ∈ g'.frames p, f ∈ g.frames p ∨ f.kills = false) : Unkilled g' where
  limbo := fun p => hlimbo ▸ h.limbo p
  frames := fun _ _ hf => (hframes _ _ hf).elim (h.frames _ _) id

theorem Unkilled.same (h : Unkilled g) (hlimbo : g'.limbo = g.limbo)
    (hframes : g'.frames = g.frames) : Unkilled g' :=
  h.congr hlimbo fun _ _ hf => Or.inl (hframes ▸ hf)

/-- The frames of one process change. -/
theorem Unkilled.setFrames (h : Unkilled g) (hfs : ∀ f ∈ fs, f ∈ g.frames pid) :
    Unkilled (g.setFrames pid fs) := by
  refine h.congr ?_ ?_
  · rfl
  intro p f hf
  change f ∈ upd g.frames pid fs p at hf
  by_cases hp : p = pid
  · rw [hp, upd_self] at hf
    rw [hp]
    exact Or.inl (hfs f hf)
  · rw [upd_of_ne hp] at hf
    exact Or.inl hf

theorem Unkilled.release (h : Unkilled g) (pid rwb : Int) {after : Frame}
    (hafter : after.kills = false) : Unkilled (g.release pid rwb after) := by
  refine h.congr ?_ ?_
  · rfl
  intro p f hf
  rw [View.release_frames] at hf
  by_cases hp : p = pid
  · rw [hp, upd_self] at hf
    rcases List.mem_cons.mp hf with he | hf
    · rw [he]
      exact Or.inr hafter
    · rw [hp]
      exact Or.inl hf
  · rw [upd_of_ne hp] at hf
    exact Or.inl hf

theorem Unkilled.releases (h : Unkilled g) (hr : Releases g pid thisid rwb g') :
    Unkilled g' := by
  cases hr with
  | none => exact h
  | writer => exact h.release pid rwb rfl
  | reader => exact h.release pid rwb rfl

theorem Unkilled.signalReader (h : Unkilled g) : Unkilled (g.signalReader pid thisid rwb) := by
  have h₁ : Unkilled (g.setRwb rwb fun e => { e with rwcount := e.rwcount + 1 }) :=
    h.same rfl rfl
  unfold View.signalReader View.signalReaders
  dsimp only
  split
  · exact h₁.release pid rwb rfl
  · exact h₁

theorem Unkilled.signalrwb (h : Unkilled g) : Unkilled (g.signalrwb pid thisid rwb) := by
  have h₁ : Unkilled ((g.setFlag thisid 0).setRwb rwb fun e =>
      { e with rwcount := if g.flags thisid = -1 then e.rwcount + 1 else e.rwcount - 1 }) :=
    h.same rfl rfl
  exact h₁.releases (signalNext_releases _ pid thisid rwb)

theorem Unkilled.victim (h : Unkilled g) (hI : Inv w g EMPTY s) : s.victim = none := by
  unfold Xinu.victim
  split
  · rename_i pid rest hs
    have hmem := (popped_eq hI hs rfl).1
    have hkills := h.frames s.currpid (.killSent pid) (by
      rw [hmem]
      exact List.mem_cons_self)
    cases hkills
  · rfl

/-- A ready process is on the ready list. -/
theorem Unkilled.linked (h : Unkilled g) (hI : Inv w g EMPTY s)
    (hready : (s.proctab pid).prstate = .ready) : s.Linked pid := by
  apply hI.linked (h.limbo pid)
  intro hlost
  have hwait := (hI.lost pid hlost).2
  rw [hready] at hwait
  cases hwait

theorem Unkilled.findsLinked (h : Unkilled g) (hI : Inv w g EMPTY s) (l : Label) :
    FindsLinked s l := by
  cases l with
  | call c =>
      cases c with
      | suspend pid => exact fun hready => h.linked hI hready
      | _ => trivial
  | cont =>
      intro pid hv
      rw [h.victim hI] at hv
      cases hv

theorem Unkilled.blockMove (h : Unkilled g) (hI : Inv w g EMPTY s) (hkill : KillsNobody l)
    (hm : g.BlockMove s l g') : Unkilled g' := by
  cases hm with
  | keep hl hsame => exact h.same hsame.limbo hsame.frames
  | @born ssize priority pid hdead hpid =>
      have h₁ : Unkilled (g.setLive pid True) := h.same rfl rfl
      exact h₁.setFrames fun f hf => absurd hf List.not_mem_nil
  | kill hnull hsame => exact absurd hkill id
  | create hcount hb hfree => exact h.same rfl rfl
  | delete hu => exact h.same (View.local_delete g _).limbo (View.delete_frames g _)
  | reset hcount hu => exact h.same (View.local_reset g _ _).limbo (View.reset_frames g _ _)
  | tryread hu => exact h.same (View.local_tryread g _ _).limbo (View.tryread_frames g _ _)
  | trywrite hu => exact h.same (View.local_trywrite g _ _).limbo (View.trywrite_frames g _ _)
  | signal hu => exact h.signalrwb
  | @writer thisid rwb rest hs hv =>
      have h₁ : Unkilled (g.setFrames s.currpid rest) := by
        apply h.setFrames
        rw [hs]
        exact fun f hf => List.mem_cons_of_mem _ hf
      exact h₁.same rfl rfl
  | @reader thisid rwb rest hs hv =>
      have h₁ : Unkilled (g.setFrames s.currpid rest) := by
        apply h.setFrames
        rw [hs]
        exact fun f hf => List.mem_cons_of_mem _ hf
      exact h₁.signalReader
  | killSent hs hv =>
      rw [h.victim hI] at hv
      cases hv
  | @killSignaled pid rest hs hv =>
      have hkills := h.frames s.currpid (.killSignaled pid) (by
        rw [hs]
        exact List.mem_cons_self)
      cases hkills

theorem Unkilled.killFits {t : Xinu × Books} (h : Unkilled g) (hI : Inv w g EMPTY t.1) (b : Int)
    (l : Label) : KillFits b t l := by
  cases l with
  | call c => trivial
  | cont =>
      intro pid hv
      rw [h.victim hI] at hv
      cases hv

/-!
## Ledgers along a run
-/

theorem ledger_boot (b : Int) : Ledger b bootView Books.empty where
  waiting := fun _ hp => absurd hp List.not_mem_nil
  active := fun _ hp => hp.elim (absurd rfl) (absurd rfl)
  idle := fun _ => ⟨rfl, fun _ => rfl⟩
  balanced := by
    apply Balanced.settled
    · exact fun _ => rfl
    · rw [weight_vacant fun _ => rfl]
      rfl

/-- A step of the machine with its books. -/
theorem booked_step {t t' : Xinu × Books} (hG : Good .plain g t.1) (hcall : AnyCalls t.1 l)
    (hlinked : FindsLinked t.1 l) (hstep : bookedStep t l = some t') :
    ∃ g', Good .plain g' t'.1 ∧ g.BlockMove t.1 l g' ∧
      ∀ b, ValidRwb b → Ledger b g t.2 → Fair b t l → FlagFits b t l → LeavesSettled b t l →
        KillFits b t l → BookStep b t l g g' t'.2 := by
  rcases observed_eq hstep with ⟨hs, hbooks⟩
  rcases step_good hG (hcall.fits hlinked) hs with ⟨g', hmoves, hG'⟩
  have hm := moves_blockMove hG.ok.inv hmoves
  refine ⟨g', hG', hm, ?_⟩
  intro b hb hL hfair hflag hleave hkill
  rw [hbooks]
  exact BookStep.of_move hG hG' hL hb hfair hflag hleave hkill hlinked.victim hm

end

/-!
## Several blockers at once

{lit}`signalrwb` learns the caller's role from one flag for each process, which
every try and every signal on any blocker overwrites.  The count of a blocker is
right as long as the flag is that of the role in which the caller is inside.
-/

/-- Frames of {lit}`_signalrwb`. -/
def Frame.signaling : Frame → Bool
  | .rwbWriter _ _ | .rwbReader _ _ => true
  | _ => false

/-- Only the running process can be in the middle of a signal. -/
def Xinu.SignalsWhole (s : Xinu) : Prop :=
  ∀ p ∈ Xinu.allPids, p ≠ s.currpid → ∀ f ∈ s.stack p, f.signaling = false

instance (s : Xinu) : Decidable s.SignalsWhole :=
  inferInstanceAs (Decidable (∀ p ∈ Xinu.allPids, _))

/-- Processes use the blockers as they should, nobody is killed, and each signal
runs to its end before another process runs. -/
def WholeSignals (t : Xinu × Books) (l : Label) : Prop :=
  AnyCalls t.1 l ∧ KillsNobody l ∧ (∀ b ∈ Xinu.allRwbs, Fair b t l) ∧ t.1.SignalsWhole

instance (t : Xinu × Books) (l : Label) : Decidable (WholeSignals t l) :=
  inferInstanceAs (Decidable (_ ∧ _))

/-- The processes inside a blocker in the given role. -/
def Books.users (k : Books) (b : Int) (r : Role) : List Int :=
  Xinu.allPids.filter fun p => k.inside b p = some r

/-- Between signals the count of every used blocker is the number of its readers,
or -1 for a writer. -/
structure UsersCounted (t : Xinu × Books) : Prop where
  readers : ∀ b, ¬ t.1.isbadrwb b → t.1.Settled b → t.2.users b .writer = [] →
    (t.1.rwbtab b).rwcount = (t.2.users b .reader).length
  writer : ∀ b, ¬ t.1.isbadrwb b → t.1.Settled b → (t.2.users b .writer).length = 1 →
    (t.1.rwbtab b).rwcount = -1

section

variable {w : Watch} {g g' : View} {t t' : Xinu × Books} {s : Xinu} {k : Books} {b : Int}
  {l : Label}

/-- Without writers the balance counts the readers. -/
theorem weight_readers (h : ∀ p, k.inside b p ≠ some .writer) :
    k.weight b = (k.users b .reader).length := by
  unfold Books.weight Books.users
  induction Xinu.allPids with
  | nil => rfl
  | cons p ps ih =>
      rw [List.map_cons, List.sum_cons, ih]
      cases hp : k.inside b p with
      | none =>
          rw [List.filter_cons_of_neg (by rw [hp]; decide)]
          exact Int.zero_add _
      | some r =>
          cases r with
          | reader =>
              rw [List.filter_cons_of_pos (by rw [hp]; decide), List.length_cons]
              show 1 + ((ps.filter _).length : Int) = _
              omega
          | writer => exact absurd hp (h p)

/-- A process that makes a call has no signal half finished, and no other process
has. -/
theorem settled_of_whole (h : s.SignalsWhole) (huser : s.stack s.currpid = []) (b : Int) :
    s.Settled b := by
  intro p hp
  by_cases hne : p = s.currpid
  · rw [hne, huser]
    rfl
  · unfold signalsOn
    rw [List.filter_eq_nil_iff]
    intro f hf
    have hquiet := h p hp hne f hf
    cases f with
    | rwbWriter thisid rwb => cases hquiet
    | rwbReader thisid rwb => cases hquiet
    | _ => exact Bool.false_ne_true

theorem WholeSignals.settled (h : WholeSignals t l) (hstep : bookedStep t l = some t') (b : Int) :
    LeavesSettled b t l ∧ EntersSettled b t l := by
  have hs := (observed_eq hstep).1
  cases l with
  | cont => exact ⟨trivial, trivial⟩
  | call c =>
      have huser := stack_of_call (s := t.1) (c := c) (by
        rw [hs]
        exact Option.some_ne_none _)
      have hsettled := settled_of_whole h.2.2.2 huser b
      constructor
      · cases c with
        | signalrwb rwb => exact fun _ => hsettled
        | _ => trivial
      · cases c with
        | rwbTryread rwb => exact fun _ _ => hsettled
        | rwbTrywrite rwb => exact fun _ _ => hsettled
        | _ => trivial

/-- Readers and writers stay apart on every blocker, and the ledgers hold. -/
structure WholeBooks (t : Xinu × Books) : Prop where
  view : ∃ g, Good .plain g t.1 ∧ Unkilled g ∧
    ∀ b, ValidRwb b → Ledger b g t.2 ∧ Apart b t.2

theorem WholeBooks.boot (h : BookedBoot t) : WholeBooks t := by
  rcases h with ⟨⟨mem, rand, hs⟩, hk⟩
  refine ⟨bootView, ?_, unkilled_boot, ?_⟩
  · rw [hs]
    exact sysinit_good .plain mem rand
  · intro b _
    rw [hk]
    exact ⟨ledger_boot b, fun p q hp => by cases hp⟩

theorem WholeBooks.step (h : WholeBooks t) (hcalls : WholeSignals t l)
    (hflag : ∀ b ∈ Xinu.allRwbs, FlagFits b t l) (hstep : bookedStep t l = some t') :
    WholeBooks t' := by
  rcases h.view with ⟨g, hG, hunkilled, hbooks⟩
  have hI := hG.ok.inv
  rcases booked_step hG hcalls.1 (hunkilled.findsLinked hI l) hstep with ⟨g', hG', hm, hledger⟩
  refine ⟨g', hG', hunkilled.blockMove hI hcalls.2.1 hm, ?_⟩
  intro b hb
  have hmem := mem_allRwbs.mpr hb
  have hsettled := hcalls.settled hstep b
  have hnext := hledger b hb (hbooks b hb).1 (hcalls.2.2.1 b hmem) (hflag b hmem) hsettled.1
    (hunkilled.killFits hI b l)
  exact ⟨hnext.ledger, hnext.apart hsettled.2 (hbooks b hb).2⟩

theorem mem_users {r : Role} {p : Int} :
    p ∈ k.users b r ↔ ValidPid p ∧ k.inside b p = some r := by
  unfold Books.users
  rw [List.mem_filter, mem_allPids, decide_eq_true_iff]

theorem WholeBooks.counted (h : WholeBooks t) : UsersCounted t := by
  rcases h.view with ⟨g, hG, _, hbooks⟩
  have hI := hG.ok.inv
  have hcount : ∀ b, ¬ t.1.isbadrwb b → t.1.Settled b →
      (t.1.rwbtab b).rwcount = t.2.weight b := by
    intro b hbad hs
    have hL := (hbooks b (not_isbadrwb_iff.mp hbad).1).1
    rw [hI.tab]
    exact hL.count_of_settled ((settled_iff hI hL).mp hs)
  constructor
  · intro b hbad hs hnil
    have hL := (hbooks b (not_isbadrwb_iff.mp hbad).1).1
    rw [hcount b hbad hs, weight_readers]
    intro p hp
    have hmem := mem_users.mpr ⟨hL.valid hp, hp⟩
    rw [hnil] at hmem
    cases hmem
  · intro b hbad hs hone
    rcases List.length_eq_one_iff.mp hone with ⟨p, hp⟩
    have hin := mem_users.mp (hp ▸ List.mem_cons_self)
    have hapart := (hbooks b (not_isbadrwb_iff.mp hbad).1).2
    rw [hcount b hbad hs, weight_writer hapart hin.1 hin.2]

/-- In every run whose signals read the flag of the role they end, each count is
right between signals. -/
theorem blockers_counted
    (h : Reach bookedStep
      (fun t l => WholeSignals t l ∧ ∀ b ∈ Xinu.allRwbs, FlagFits b t l) BookedBoot t) :
    UsersCounted t := by
  have hbooks : WholeBooks t := by
    apply h.invariant
    · exact fun t => WholeBooks.boot
    · exact fun t l t' _ hb henv hstep => hb.step henv.1 henv.2 hstep
  exact hbooks.counted

end

/-- One process reads blocker 0 and then writes blocker 1, leaving each before it
enters the other. -/
theorem blockers_counted_two :
    ∃ t : Xinu × Books, t.2.inside 1 1 = some .writer ∧ UsersCounted t := by
  rcases exists_reach_of_follow bookedStep
    (fun t l => WholeSignals t l ∧ ∀ b ∈ Xinu.allRwbs, FlagFits b t l) bookedBoot_sample
    [.call (.create 4096 20), .call (.resume 1), .call (.rwbcreate 0), .call (.rwbcreate 0),
      .call (.rwbTryread 0), .call (.signalrwb 0), .call (.rwbTrywrite 1)]
    (fun t => t.2.inside 1 1 = some .writer)
    (by decide +kernel) with ⟨t, ht, hp⟩
  exact ⟨t, hp, blockers_counted ht⟩

/-- A process inside blocker 0 as a reader enters blocker 1 as a writer: its flag
is -1 when it signals blocker 0, whose count rises to 2. -/
theorem nested_miscounted :
    ¬ ∀ t, Reach bookedStep WholeSignals BookedBoot t → UsersCounted t := by
  intro h
  rcases exists_reach_of_follow bookedStep WholeSignals bookedBoot_sample
    [.call (.create 4096 20), .call (.resume 1), .call (.rwbcreate 0), .call (.rwbcreate 0),
      .call (.rwbTryread 0), .call (.rwbTrywrite 1), .call (.signalrwb 0)]
    (fun t => ¬ t.1.isbadrwb 0 ∧ t.1.Settled 0 ∧ t.2.users 0 .writer = [] ∧
      (t.1.rwbtab 0).rwcount ≠ (t.2.users 0 .reader).length)
    (by decide +kernel) with ⟨t, ht, hbad, hs, hnil, hcount⟩
  exact hcount ((h t ht).readers 0 hbad hs hnil)

end BbbXinu
