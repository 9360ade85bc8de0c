import BbbXinu.Properties.OrderedInsertion

/-!
# The delta list of sleeping processes

A process in a sleep queue is due after the sum of the keys up to its own.  {lit}`insertd` and
{lit}`unsleep` change the key of one successor, and with it nobody's sum but that of the process
they are called for.
-/

namespace BbbXinu

open LinkedLists KeyedLists

/-- A queue whose keys are delays, each relative to the process in front. -/
structure SleepQueue (t : Int → Qentry) (q : Int) (l : List Int) : Prop where
  queue : WellFormed t q l
  nonneg : ∀ p ∈ l, 0 ≤ (t p).qkey
  total : (l.map fun p => (t p).qkey).sum < 2147483648

/-- The delay of a process in a sleep queue, counted from now. -/
def remaining (t : Int → Qentry) (l : List Int) (p : Int) : Int :=
  sumTo (fun i => (t i).qkey) l p

namespace SleepQueue

variable {t : Int → Qentry} {q p : Int} {l : List Int}

theorem delta (h : SleepQueue t q l) : Delta (fun i => (t i).qkey) (remaining t l) 0 l := by
  have hdelta := delta_sumTo 0 h.queue.nodup h.nonneg
  exact hdelta.congr (fun _ _ => rfl) fun y _ => (Int.zero_add _).symm

theorem remaining_lt (h : SleepQueue t q l) (hp : p ∈ l) : remaining t l p < 2147483648 := by
  have hle := h.delta.le_end hp
  have hsum := h.delta.sum_keys
  have htotal := h.total
  omega

/-- A queue whose keys are the differences of due values. -/
theorem of_delta {due : Int → Int} (h : WellFormed t q l)
    (hdelta : Delta (fun i => (t i).qkey) due 0 l) (hdue : ∀ p ∈ l, due p < 2147483648) :
    SleepQueue t q l ∧ ∀ p ∈ l, remaining t l p = due p := by
  constructor
  · constructor
    · exact h
    · exact fun p hp => hdelta.key_nonneg hp
    · have hsum := hdelta.sum_keys
      have hzero : (0 : Int) < 2147483648 := by decide
      have hend := endDue_lt hzero hdue
      omega
  · intro p hp
    have heq := hdelta.sumTo_eq hp
    unfold remaining
    omega

end SleepQueue

namespace Xinu

variable {s : Xinu} {q pid d key : Int} {l m : List Int}

/-!
## Going to sleep
-/

/-- What {lit}`insertd` makes of a sleep queue: the new process stands behind all that are due
no later than it, and nobody's delay changes. -/
structure FallsAsleep (s s' : Xinu) (pid q d : Int) (l₁ l₂ : List Int) : Prop where
  queue : SleepQueue s'.queuetab q (l₁ ++ pid :: l₂)
  own : remaining s'.queuetab (l₁ ++ pid :: l₂) pid = d
  kept : ∀ p ∈ l₁ ++ l₂,
    remaining s'.queuetab (l₁ ++ pid :: l₂) p = remaining s.queuetab (l₁ ++ l₂) p
  before : ∀ p ∈ l₁, remaining s.queuetab (l₁ ++ l₂) p ≤ d
  behind : ∀ p ∈ l₂, d < remaining s.queuetab (l₁ ++ l₂) p
  others : ∀ r m, r ≠ q → WellFormed s.queuetab r m → pid ∉ m → WellFormed s'.queuetab r m
  state : s' = s.setQueuetab s'.queuetab

/-- The links and keys that {lit}`insertd` writes. -/
theorem insertd_table (h : WellFormed s.queuetab q (l ++ m)) (hpid : ¬ s.isbadpid pid)
    (hoff : pid ∉ l ++ m)
    (hrun : deltaSplit (fun i => (s.queuetab i).qkey) d (l ++ m) = (l, m, key)) :
    (s.insertd pid q d).1 = OK ∧
      (s.insertd pid q d).2 = s.setQueuetab (s.insertd pid q d).2.queuetab ∧
      (fun i => ((s.insertd pid q d).2.queuetab i).qnext) =
        upd (upd (fun i => (s.queuetab i).qnext) pid (headOr (queuetail q) m)) (lastOr q l) pid ∧
      (fun i => ((s.insertd pid q d).2.queuetab i).qprev) =
        upd (upd (fun i => (s.queuetab i).qprev) pid (lastOr q l)) (headOr (queuetail q) m) pid ∧
      (∀ i, ((s.insertd pid q d).2.queuetab i).qkey =
        if i = pid then key
        else if m.head? = some i then int32 ((s.queuetab i).qkey - key)
        else (s.queuetab i).qkey) ∧
      ∀ i, i ≠ pid → i ≠ lastOr q l → i ≠ headOr (queuetail q) m →
        (s.insertd pid q d).2.queuetab i = s.queuetab i := by
  have htail : queuetail q ∉ l ++ m := fun hm => h.ends_not_node.2 (h.valid _ hm)
  have hfirst : s.firstid q = headOr (queuetail q) (l ++ m) := h.seg.next_eq_headOr
  have hsearch := insertdSearch_eq d h.seg htail h.length_lt
  rw [hrun] at hsearch
  rcases link_table s pid (lastOr q l) (headOr (queuetail q) m)
    (fun _ => { qnext := headOr (queuetail q) m, qprev := lastOr q l, qkey := key })
    (fun _ => rfl) (fun _ => rfl) with ⟨t, ht, hnext, hprev, hkey, hrest⟩
  unfold insertd
  rw [if_neg (not_or.mpr ⟨h.good, hpid⟩)]
  simp only [hfirst, queuehead_eq, hsearch, ht]
  refine ⟨trivial, ?_⟩
  cases m with
  | nil =>
      simp only [headOr_nil, ne_eq, not_true_eq_false, if_false]
      refine ⟨rfl, hnext, hprev, ?_, hrest⟩
      intro i
      have hi := congrFun hkey i
      simpa [upd_apply, setQueuetab] using hi
  | cons x m =>
      have hx : x ≠ queuetail q := fun he => htail (by simp [← he])
      have hxp : x ≠ pid := fun he => hoff (by simp [← he])
      simp only [headOr_cons, ne_eq, hx, not_false_eq_true, if_true]
      refine ⟨rfl, ?_, ?_, ?_, ?_⟩
      · exact (setQueue_proj Qentry.qnext x (fun e => { e with qkey := int32 (e.qkey - key) })
          fun _ => rfl).trans hnext
      · exact (setQueue_proj Qentry.qprev x (fun e => { e with qkey := int32 (e.qkey - key) })
          fun _ => rfl).trans hprev
      · intro i
        have hi := congrFun hkey i
        have hkx := congrFun hkey x
        rw [upd_of_ne hxp] at hkx
        by_cases hix : i = x
        · subst hix
          simpa [setQueue, setQueuetab, hxp] using congrArg (fun v => int32 (v - key)) hkx
        · simpa [setQueue, setQueuetab, upd_apply, hix, Ne.symm hix] using hi
      · intro i hp hl hm
        have hi : upd t x { t x with qkey := int32 ((t x).qkey - key) } i = t i := upd_of_ne hm
        exact hi.trans (hrest i hp hl hm)

/-- A process gets the delay it is put to sleep for. -/
theorem insertd_fallsAsleep (h : SleepQueue s.queuetab q l) (hpid : ¬ s.isbadpid pid)
    (hoff : pid ∉ l) (hpos : 0 ≤ d) (hd : d < 2147483648) :
    (s.insertd pid q d).1 = OK ∧
      ∃ l₁ l₂, l = l₁ ++ l₂ ∧ FallsAsleep s (s.insertd pid q d).2 pid q d l₁ l₂ := by
  have hv : ValidPid pid := (not_isbadpid_iff.mp hpid).1
  have hsplit := deltaSplit_append (fun i => (s.queuetab i).qkey) d l
  rcases hrun : deltaSplit (fun i => (s.queuetab i).qkey) d l with ⟨l₁, l₂, key⟩
  rw [hrun] at hsplit
  dsimp only at hsplit
  subst hsplit
  rcases insertd_table h.queue hpid hoff hrun with ⟨hret, hstate, hnext, hprev, hkey, hrest⟩
  rcases delta_insertd h.delta h.queue.nodup hoff (fun _ hp => h.remaining_lt hp) hpos hd hrun
    hkey with ⟨hdelta, hbefore, hbehind⟩
  have hlast := lastOr_mem q l₁
  have hfirst := headOr_mem (queuetail q) l₂
  have hqueue : WellFormed (s.insertd pid q d).2.queuetab q (l₁ ++ pid :: l₂) := by
    apply h.queue.link hv hoff hnext hprev
    intro i hi
    have hip : i ≠ pid := fun he => hi (he ▸ hv)
    have hil : l₂.head? ≠ some i := by
      intro hh
      exact hi (h.queue.valid i (by simp [List.mem_of_mem_head? hh]))
    rw [hkey i, if_neg hip, if_neg hil]
  have hdue : ∀ p ∈ l₁ ++ pid :: l₂,
      upd (remaining s.queuetab (l₁ ++ l₂)) pid d p < 2147483648 := by
    intro p hp
    rw [upd_apply]
    split
    · exact hd
    · rename_i hne
      exact h.remaining_lt (by grind)
  rcases SleepQueue.of_delta hqueue hdelta hdue with ⟨hsleep, hremaining⟩
  refine ⟨hret, l₁, l₂, rfl, ?_⟩
  constructor
  · exact hsleep
  · rw [hremaining pid (by simp), upd_self]
  · intro p hp
    have hne : p ≠ pid := fun he => hoff (he ▸ hp)
    rw [hremaining p (by grind), upd_of_ne hne]
  · exact hbefore
  · exact hbehind
  · intro r m hne hr hpm
    apply h.queue.other hr hne hv hpm
    intro i hi hring
    apply hrest i hi
    · grind
    · grind
  · exact hstate

/-!
## Waking before time
-/

/-- The processes that {lit}`unsleep` takes for sleeping. -/
def IsAsleep (s : Xinu) (pid : Int) : Prop :=
  ¬ s.isbadpid pid ∧
    ((s.proctab pid).prstate = .sleep ∨ (s.proctab pid).prstate = .rectim)

/-- What {lit}`unsleep` makes of a sleep queue: one process less, and nobody's delay changes. -/
structure Awakens (s s' : Xinu) (pid q : Int) (l : List Int) : Prop where
  queue : SleepQueue s'.queuetab q (l.erase pid)
  kept : ∀ p ∈ l, p ≠ pid → remaining s'.queuetab (l.erase pid) p = remaining s.queuetab l p
  others : ∀ r m, r ≠ q → WellFormed s.queuetab r m → WellFormed s'.queuetab r m
  state : s' = s.setQueuetab s'.queuetab

/-- The links and keys that {lit}`unsleep` writes. -/
theorem unsleep_table (h : WellFormed s.queuetab q (l ++ pid :: m)) (hasleep : s.IsAsleep pid) :
    s.unsleep pid = s.setQueuetab (s.unsleep pid).queuetab ∧
      (fun i => ((s.unsleep pid).queuetab i).qnext) =
        upd (fun i => (s.queuetab i).qnext) (lastOr q l) (headOr (queuetail q) m) ∧
      (fun i => ((s.unsleep pid).queuetab i).qprev) =
        upd (fun i => (s.queuetab i).qprev) (headOr (queuetail q) m) (lastOr q l) ∧
      (∀ i, ((s.unsleep pid).queuetab i).qkey =
        if m.head? = some i then int32 ((s.queuetab i).qkey + (s.queuetab pid).qkey)
        else (s.queuetab i).qkey) ∧
      ∀ i, i ≠ lastOr q l → i ≠ headOr (queuetail q) m →
        (s.unsleep pid).queuetab i = s.queuetab i := by
  rcases hasleep with ⟨hpid, hstate⟩
  rcases seg_append.mp h.seg with ⟨hfront, hback⟩
  have hprev : (s.queuetab pid).qprev = lastOr q l := hfront.prev_eq_lastOr
  have hnext : (s.queuetab pid).qnext = headOr (queuetail q) m := hback.next_eq_headOr
  have hawake : ¬ ((s.proctab pid).prstate ≠ .sleep ∧ (s.proctab pid).prstate ≠ .rectim) := by
    intro hn
    exact hstate.elim hn.1 hn.2
  unfold unsleep
  rw [if_neg hpid, if_neg hawake]
  simp only [hnext]
  cases m with
  | nil =>
      have hends := h.ends
      have htail : ¬ queuetail q < NPROC := by
        unfold queuetail
        omega
      rcases getitem_table s pid with ⟨t, ht, htn, htp, htk, hrest⟩
      rw [hprev, hnext] at htn htp hrest
      simp only [headOr_nil, htail, if_false, ht]
      refine ⟨rfl, htn, htp, ?_, hrest⟩
      intro i
      simpa [setQueuetab] using congrFun htk i
  | cons x m =>
      have hx : x < NPROC := (h.valid x (by simp)).2
      have hxp : x ≠ pid := by
        have hnd := h.nodup
        grind
      simp only [headOr_cons, hx, if_true]
      have hsame : (s.setQueue x fun e =>
          { e with qkey := int32 (e.qkey + (s.queuetab pid).qkey) }).queuetab pid =
            s.queuetab pid := upd_of_ne hxp.symm
      rcases getitem_table (s.setQueue x fun e =>
        { e with qkey := int32 (e.qkey + (s.queuetab pid).qkey) }) pid with
        ⟨t, ht, htn, htp, htk, hrest⟩
      rw [hsame, hprev, hnext] at htn htp hrest
      rw [ht]
      refine ⟨rfl, htn.trans ?_, htp.trans ?_, ?_, ?_⟩
      · rw [setQueue_proj Qentry.qnext x (fun e =>
          { e with qkey := int32 (e.qkey + (s.queuetab pid).qkey) }) fun _ => rfl]
        rfl
      · rw [setQueue_proj Qentry.qprev x (fun e =>
          { e with qkey := int32 (e.qkey + (s.queuetab pid).qkey) }) fun _ => rfl]
        rfl
      · intro i
        refine (congrFun htk i).trans ?_
        by_cases hix : i = x
        · subst hix
          simp [setQueue]
        · simp [setQueue, upd_apply, hix, Ne.symm hix]
      · intro i hl hm
        exact (hrest i hl hm).trans (upd_of_ne hm)

/-- A sleeping process leaves its key to the one behind it. -/
theorem unsleep_awakens (h : SleepQueue s.queuetab q l) (hasleep : s.IsAsleep pid) (hpid : pid ∈ l) :
    Awakens s (s.unsleep pid) pid q l := by
  rcases List.append_of_mem hpid with ⟨l₁, l₂, rfl⟩
  rcases unsleep_table h.queue hasleep with ⟨hstate, hnext, hprev, hkey, hrest⟩
  have hnd := h.queue.nodup
  have hoff : pid ∉ l₁ ++ l₂ := by grind
  have herase : (l₁ ++ pid :: l₂).erase pid = l₁ ++ l₂ := by
    rw [List.erase_append_right _ (by grind), List.erase_cons_head]
  have hlast := lastOr_mem q l₁
  have hfirst := headOr_mem (queuetail q) l₂
  have hvalid : ∀ i, l₂.head? = some i → i ∈ l₂ := fun i hi => List.mem_of_mem_head? hi
  have hqueue : WellFormed (s.unsleep pid).queuetab q (l₁ ++ l₂) := by
    apply h.queue.unlink
    · exact fun i _ => congrFun hnext i
    · exact fun i _ => congrFun hprev i
    · intro i hi
      have hil : l₂.head? ≠ some i := fun hh => hi (h.queue.valid i (by simp [hvalid i hh]))
      rw [hkey i, if_neg hil]
  have hdelta : Delta (fun i => ((s.unsleep pid).queuetab i).qkey)
      (remaining s.queuetab (l₁ ++ pid :: l₂)) 0 (l₁ ++ l₂) := by
    apply h.delta.remove hnd
    · intro y hy
      have hil : l₂.head? ≠ some y := by
        intro hh
        have hmem := hvalid y hh
        grind
      rw [hkey y, if_neg hil]
    · intro y hy
      rw [hkey y]
      split
      · rename_i hh
        cases l₂ with
        | nil => simp at hy
        | cons z m =>
            simp only [List.head?_cons, Option.some.injEq] at hh
            subst hh
            -- both keys lie on the way to the process behind
            rcases (delta_append.mp h.delta).2 with ⟨hkp, hstart, hkz, hle, _⟩
            have hfront := (delta_append.mp h.delta).1.start_le_end
            have hlt := h.remaining_lt (p := z) (by simp)
            dsimp only at hkp hkz
            exact int32_eq (by omega) (by omega)
      · rfl
  have hdue : ∀ p ∈ l₁ ++ l₂, remaining s.queuetab (l₁ ++ pid :: l₂) p < 2147483648 :=
    fun p hp => h.remaining_lt (by grind)
  rcases SleepQueue.of_delta hqueue hdelta hdue with ⟨hsleep, hremaining⟩
  constructor
  · rw [herase]
    exact hsleep
  · intro p hp hne
    rw [herase]
    exact hremaining p (by grind)
  · intro r m hne hr
    have hdis := h.queue.disjoint hr hne
    apply h.queue.other hr hne (h.queue.valid pid hpid) fun hm => hdis pid hm hpid
    intro i hi hring
    apply hrest i
    · grind
    · grind
  · exact hstate

theorem unsleep_awake (h : ¬ s.IsAsleep pid) : s.unsleep pid = s := by
  unfold IsAsleep at h
  unfold unsleep
  split
  · rfl
  · rename_i hgood
    have hstate : (s.proctab pid).prstate ≠ .sleep ∧ (s.proctab pid).prstate ≠ .rectim := by
      simpa [hgood] using h
    rw [if_pos hstate]

/-- Whoever is put to sleep or woken before time, all others in the sleep queue keep their
delays and their order. -/
theorem delays_kept (h : SleepQueue s.queuetab q l) (pid : Int) :
    (∀ d, 0 ≤ d → d < 2147483648 → ¬ s.isbadpid pid → pid ∉ l →
      (s.insertd pid q d).1 = OK ∧
        ∃ l₁ l₂, l = l₁ ++ l₂ ∧ FallsAsleep s (s.insertd pid q d).2 pid q d l₁ l₂) ∧
      (s.IsAsleep pid → pid ∈ l → Awakens s (s.unsleep pid) pid q l) ∧
      (¬ s.IsAsleep pid → s.unsleep pid = s) := by
  refine ⟨?_, ?_, ?_⟩
  · intro d hpos hd hpid hoff
    exact insertd_fallsAsleep h hpid hoff hpos hd
  · exact unsleep_awakens h
  · exact unsleep_awake

/-- Process 2 sleeps behind process 1, which is due first. -/
def sampleSleepers : Xinu := sampleSuspended.setProc 2 fun e => { e with prstate := .sleep }

theorem delays_kept_sample :
    ((sampleSleepers.insertd 3 NPROC 7).1 = OK ∧ ∃ l₁ l₂, [1, 2] = l₁ ++ l₂ ∧
      FallsAsleep sampleSleepers (sampleSleepers.insertd 3 NPROC 7).2 3 NPROC 7 l₁ l₂) ∧
      Awakens sampleSleepers (sampleSleepers.unsleep 2) 2 NPROC [1, 2] := by
  have hsleep : SleepQueue sampleSleepers.queuetab NPROC [1, 2] := {
    queue := sampleTable_wellFormed
    nonneg := by decide
    total := by decide }
  constructor
  · exact (delays_kept hsleep 3).1 7 (by decide) (by decide) (by decide) (by decide)
  · exact (delays_kept hsleep 2).2.1 ⟨by decide, by decide⟩ (by decide)

end Xinu

end BbbXinu
