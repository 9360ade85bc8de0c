import BbbXinu.Properties.Effects
import BbbXinu.Properties.Ledger

/-!
# Counting processes

{lit}`kill` counts its victim out first, sends a message, and frees it last.  In
between other processes may run.  The count is right as long as nobody frees a
process that another one is about to free, or one that is killing somebody
itself.
-/

namespace BbbXinu

open Runs

/-- The second half of a {lit}`kill`. -/
def Frame.finishes : Frame → Bool
  | .killSent _ => true
  | _ => false

namespace Xinu

variable (s : Xinu)

/-- The kills that the process has not finished. -/
def pending (p : Int) : List Frame := (s.stack p).filter Frame.finishes

/-- The number of entries of the process table that are not free. -/
def liveCount : Int :=
  (allPids.map fun p => if (s.proctab p).prstate = .free then (0 : Int) else 1).sum

/-- Whether the process counts: it lives and owes nobody's end. -/
def standing (p : Int) : Int :=
  if (s.proctab p).prstate = .free ∨ s.pending p ≠ [] then 0 else 1

/-- The stack of a process. -/
def stackOf (p : Int) : Nat × Nat := ((s.proctab p).prstkbase, (s.proctab p).prstklen)

end Xinu

/-- What the observer notes about the stacks in use: {lit}`create` takes one, and the second
half of {lit}`kill` frees one. -/
def noteStacks (own : Int → Option (Nat × Nat)) (s : Xinu) (l : Label) (s' : Xinu) :
    Int → Option (Nat × Nat) :=
  fun p =>
    match l with
    | .call (.create ssize _) =>
        if (s.proctab p).prstate = .free ∧ (s'.proctab p).prstate ≠ .free then
          (s.newStack ssize).1.map fun saddr => (saddr, stackSize ssize)
        else own p
    | .cont => if s.victim = some p then none else own p
    | _ => own p

/-- A {lit}`kill` that comes to free its victim: nobody else is about to free it too, and it
is not killing somebody itself. -/
def KillsApart (s : Xinu) : Label → Prop
  | .cont => ∀ v ∈ s.victim, (v ≠ s.currpid → s.pending v = []) ∧
      ∀ p ∈ Xinu.allPids, p ≠ s.currpid → (s.proctab p).prstate ≠ .free →
        Frame.killSent v ∉ s.stack p
  | .call _ => True

instance (s : Xinu) (l : Label) : Decidable (KillsApart s l) := by
  induction l using Label.casesOn <;> unfold KillsApart <;> infer_instance

/-- What holds of processes and stacks between steps. -/
structure Accounted (s : Xinu) (own : Int → Option (Nat × Nat)) : Prop where
  /-- Unless somebody is in the middle of a {lit}`kill`, the count is right. -/
  counted : s.halted = false →
    (∀ p ∈ Xinu.allPids, (s.proctab p).prstate ≠ .free → s.pending p = []) →
    s.prcount = s.liveCount
  /-- The processes that live have the stacks they were given, and nobody else has one. -/
  owned : ∀ p, own p = if (s.proctab p).prstate = .free then none else some (s.stackOf p)
  /-- A stack that is freed is in use until then, and its process does not run again. -/
  freed : ∀ v s', s.victim = some v → KillsApart s .cont → s.step .cont = some s' →
    own v = some (s.stackOf v) ∧ (s'.proctab v).prstate = .free ∧
      s'.mem = s.mem.freestk (s.stackOf v).1 (s.stackOf v).2

/-- The invariant of runs in which kills stay apart. -/
structure Accounting (g : View) (s : Xinu) (own : Int → Option (Nat × Nat)) : Prop where
  plain : Plain .plain g s
  sum : s.halted = false → s.prcount = (Xinu.allPids.map s.standing).sum
  /-- Nobody is in the middle of two kills. -/
  once : ∀ p, (s.pending p).length ≤ 1
  victims : ∀ p, (s.proctab p).prstate ≠ .free → ∀ v, Frame.killSent v ∈ s.stack p →
    (s.proctab v).prstate ≠ .free
  owned : ∀ p, own p = if (s.proctab p).prstate = .free then none else some (s.stackOf p)

section

variable {g : View} {s s' s₁ : Xinu} {l : Label} {c p pid v : Int} {f : Frame}
  {rest : List Frame} {own : Int → Option (Nat × Nat)}

theorem Frame.finishes_of_idle (h : f.idle = true) : f.finishes = false := by
  cases f with
  | killSent pid => cases h
  | _ => rfl

/-- Scheduling does not touch the kills in progress. -/
theorem Aside.pending (h : Aside c s s') (p : Int) : s'.pending p = s.pending p := by
  unfold Xinu.pending
  by_cases hp : p = c
  · rcases h.frames with ⟨fs, hfs, hidle⟩
    have hnil : fs.filter Frame.finishes = [] := by
      apply List.filter_eq_nil_iff.mpr
      intro f hf
      rw [Frame.finishes_of_idle (hidle f hf)]
      exact Bool.false_ne_true
    rw [hp, hfs, List.filter_append, hnil, List.nil_append]
  · rw [h.stack p hp]

theorem killSent_mem : Frame.killSent v ∈ s.stack p ↔ Frame.killSent v ∈ s.pending p := by
  unfold Xinu.pending
  rw [List.mem_filter]
  exact ⟨fun h => ⟨h, rfl⟩, fun h => h.1⟩

theorem Aside.stackOf (h : Aside c s s') (p : Int) : s'.stackOf p = s.stackOf p := by
  unfold Xinu.stackOf
  rw [(h.self p).prstkbase, (h.self p).prstklen]

/-- Without a new process and the end of a {lit}`kill`, the same processes live. -/
theorem Plain.lives (hP : Plain .plain g s) (henv : TableCalls s l)
    (hstep : s.step l = some s') (hcreate : ∀ n prio, l ≠ .call (.create n prio))
    (hvictim : l = .cont → s.victim = none) (p : Int) :
    (s'.proctab p).prstate = .free ↔ (s.proctab p).prstate = .free := by
  rcases hP.step henv hstep with ⟨g', hmoves, hP'⟩
  have hlive : g'.live = g.live := by
    cases l with
    | call a =>
        exact callMoves_same_live henv.1 (fun n prio h => hcreate n prio (h ▸ rfl)) hmoves
    | cont =>
        rcases hmoves with ⟨f, rest, hs, rfl⟩
        rw [hP.frameMove_live hs]
        cases f with
        | killSent pid =>
            have hno := hvictim rfl
            rw [Xinu.victim_eq hs] at hno
            cases hno
        | _ => rfl
  rw [← not_iff_not]
  have h := hP.good.ok.inv.live p
  have h' := hP'.good.ok.inv.live p
  rw [hlive] at h'
  exact h'.symm.trans h

/-- The end of a {lit}`kill` frees its victim and nobody else. -/
theorem Plain.victim_freed (hP : Plain .plain g s) (hs : s.stack s.currpid = .killSent v :: rest)
    (hstep : s.step .cont = some s') (p : Int) :
    (s'.proctab p).prstate = .free ↔ p = v ∨ (s.proctab p).prstate = .free := by
  have henv : TableCalls s .cont := trivial
  rcases hP.step henv hstep with ⟨g', ⟨f, rest', hs', rfl⟩, hP'⟩
  rw [hs] at hs'
  cases hs'
  have h := hP.good.ok.inv.live p
  have h' := hP'.good.ok.inv.live p
  have hlive := congrFun (hP.frameMove_live hs) p
  change _ = upd g.live v False p at hlive
  rw [hlive, upd_apply] at h'
  rw [← not_iff_not]
  apply h'.symm.trans
  by_cases hp : p = v
  · rw [if_pos hp]
    exact ⟨False.elim, fun hno => hno (Or.inl hp)⟩
  · rw [if_neg hp, h]
    exact ⟨fun hl hf => hf.elim hp hl, fun hno hl => hno (Or.inr hl)⟩

theorem standing_congr (hlive : (s'.proctab p).prstate = .free ↔ (s.proctab p).prstate = .free)
    (hpending : s'.pending p = s.pending p) : s'.standing p = s.standing p := by
  unfold Xinu.standing
  rw [hpending]
  simp only [hlive]

/-- A step that neither starts nor ends a process or a kill. -/
theorem Accounting.same (h : Accounting g s own) (henv : TableCalls s l)
    (hstep : s.step l = some s') (hcreate : ∀ n prio, l ≠ .call (.create n prio))
    (hvictim : l = .cont → s.victim = none) (hpending : ∀ p, s'.pending p = s.pending p)
    (hprcount : s'.prcount = s.prcount) (hhalted : s'.halted = s.halted)
    (hstackOf : ∀ p, s'.stackOf p = s.stackOf p) :
    ∃ g', Accounting g' s' (noteStacks own s l s') := by
  rcases h.plain.step henv hstep with ⟨g', _, hP'⟩
  have hlives := h.plain.lives henv hstep hcreate hvictim
  have hnote : noteStacks own s l s' = own := by
    funext p
    unfold noteStacks
    cases l with
    | call a =>
        cases a with
        | create n prio => exact absurd rfl (hcreate n prio)
        | _ => rfl
    | cont =>
        dsimp only
        rw [hvictim rfl, if_neg fun h => by cases h]
  refine ⟨g', hP', ?_, ?_, ?_, ?_⟩
  · intro hrun
    rw [hhalted] at hrun
    have hsame : s'.standing = s.standing := by
      funext p
      exact standing_congr (hlives p) (hpending p)
    rw [hprcount, hsame]
    exact h.sum hrun
  · intro p
    rw [hpending]
    exact h.once p
  · intro p hlive v hmem
    rw [killSent_mem, hpending, ← killSent_mem] at hmem
    rw [ne_eq, hlives] at hlive ⊢
    exact h.victims p hlive v hmem
  · intro p
    rw [hnote, h.owned p, hstackOf p]
    simp only [hlives]

theorem taken_stackOf (s : Xinu) (p : Int) : s.taken.stackOf p = s.stackOf p := by
  unfold Xinu.stackOf
  show ((upd s.proctab s.currpid _ p).prstkbase, (upd s.proctab s.currpid _ p).prstklen) = _
  rw [upd_apply]
  split
  · rename_i hp
    rw [hp]
  · rfl

theorem stackOf_deliver (s : Xinu) (pid : Int) (msg : Nat) (p : Int) :
    (s.deliver pid msg).stackOf p = s.stackOf p := by
  unfold Xinu.stackOf Xinu.deliver
  show ((upd s.proctab pid _ p).prstkbase, (upd s.proctab pid _ p).prstklen) = _
  rw [upd_apply]
  split
  · rename_i hp
    rw [hp]
  · rfl

theorem pending_user (hu : s.inUser) : s.pending s.currpid = [] := by
  unfold Xinu.pending
  rw [show s.stack s.currpid = [] from hu]
  rfl

theorem counted_pending (hu : s.inUser) (p : Int) :
    (s.counted pid).pending p = if p = s.currpid then [.killSent pid] else s.pending p := by
  have hstack : (s.counted pid).stack =
      upd s.stack s.currpid (.killSent pid :: s.stack s.currpid) := rfl
  unfold Xinu.pending
  rw [hstack, upd_apply]
  split
  · rw [show s.stack s.currpid = [] from hu]
    rfl
  · rfl

theorem pop_pending (hs : s.stack s.currpid = f :: rest) (p : Int) :
    s.pop.pending p = if p = s.currpid then rest.filter Frame.finishes else s.pending p := by
  have hstack : s.pop.stack = upd s.stack s.currpid (s.stack s.currpid).tail := rfl
  unfold Xinu.pending
  rw [hstack, upd_apply, hs]
  split
  · rfl
  · rfl

/-- Taking off a frame that finishes no kill. -/
theorem pop_pending_same (hs : s.stack s.currpid = f :: rest) (hf : f.finishes = false) (p : Int) :
    s.pop.pending p = s.pending p := by
  rw [pop_pending hs]
  split
  · rename_i hp
    unfold Xinu.pending
    rw [hp, hs, List.filter_cons_of_neg]
    rw [hf]
    exact Bool.false_ne_true
  · rfl

/-- A process starts. -/
theorem Accounting.create {n : Nat} {prio next : Int} {saddr : Nat} (h : Accounting g s own)
    (hstep : s.step (.call (.create n prio)) = some (((s.setMem (s.newStack n).2).setNextpid
      next).spawn pid saddr (stackSize n) prio))
    (henv : TableCalls s (.call (.create n prio))) (hstk : (s.newStack n).1 = some saddr)
    (hpid : ValidPid pid) (hfree : (s.proctab pid).prstate = .free) :
    ∃ g', Accounting g' (((s.setMem (s.newStack n).2).setNextpid next).spawn pid saddr
      (stackSize n) prio) (noteStacks own s (.call (.create n prio))
        (((s.setMem (s.newStack n).2).setNextpid next).spawn pid saddr (stackSize n) prio)) := by
  rcases h.plain.step henv hstep with ⟨g', _, hP'⟩
  refine ⟨g', ?_⟩
  generalize (s.newStack n).2 = m at hP' ⊢
  generalize hs' : ((s.setMem m).setNextpid next).spawn pid saddr (stackSize n) prio = s'
    at hP' ⊢
  have hproctab : ∀ p, p ≠ pid → s'.proctab p = s.proctab p := by
    intro p hp
    rw [← hs']
    exact upd_of_ne hp
  have hself : (s'.proctab pid).prstate = .susp ∧ s'.stackOf pid = (saddr, stackSize n) := by
    rw [← hs']
    unfold Xinu.stackOf Xinu.spawn
    show (upd s.proctab pid _ pid).prstate = _ ∧
      ((upd s.proctab pid _ pid).prstkbase, (upd s.proctab pid _ pid).prstklen) = _
    rw [upd_self]
    exact ⟨rfl, rfl⟩
  have hpending : ∀ p, s'.pending p = if p = pid then [] else s.pending p := by
    intro p
    rw [← hs']
    show (upd s.stack pid [] p).filter _ = _
    rw [upd_apply]
    split
    · rfl
    · rfl
  have hprcount : s'.prcount = s.prcount + 1 := by
    rw [← hs']
    rfl
  have hlive : (s'.proctab pid).prstate ≠ .free := by
    rw [hself.1]
    exact fun h => by cases h
  refine ⟨hP', ?_, ?_, ?_, ?_⟩
  · intro hrun
    have hhalted : s'.halted = s.halted := by
      rw [← hs']
      rfl
    have hchange : (Xinu.allPids.map s'.standing).sum = (Xinu.allPids.map s.standing).sum +
        (s'.standing pid - s.standing pid) := by
      apply sum_map_change nodup_allPids (mem_allPids.mpr hpid)
      intro p hp
      apply standing_congr
      · rw [hproctab p hp]
      · rw [hpending, if_neg hp]
    have hone : s'.standing pid = 1 := by
      unfold Xinu.standing
      rw [hpending, if_pos rfl, if_neg]
      exact fun h => h.elim hlive fun h => h rfl
    have hzero : s.standing pid = 0 := if_pos (Or.inl hfree)
    rw [hhalted] at hrun
    rw [hprcount, hchange, hone, hzero, h.sum hrun]
    rfl
  · intro p
    rw [hpending]
    split
    · exact Nat.zero_le 1
    · exact h.once p
  · intro p hp v hmem
    rw [killSent_mem, hpending] at hmem
    split at hmem
    · cases hmem
    · rename_i hne
      rw [← killSent_mem] at hmem
      rw [hproctab p hne] at hp
      by_cases hv : v = pid
      · rw [hv]
        exact hlive
      · rw [hproctab v hv]
        exact h.victims p hp v hmem
  · intro p
    unfold noteStacks
    dsimp only
    by_cases hp : p = pid
    · rw [hp, if_pos ⟨hfree, hlive⟩, if_neg hlive, hstk, hself.2]
      rfl
    · have hstackOf : s'.stackOf p = s.stackOf p := by
        unfold Xinu.stackOf
        rw [hproctab p hp]
      rw [hproctab p hp, hstackOf, if_neg fun hc => hc.2 hc.1]
      exact h.owned p

/-- The first half of a {lit}`kill`. -/
theorem Accounting.counts (h : Accounting g s own)
    (hstep : s.step (.call (.kill pid)) = some s') (henv : TableCalls s (.call (.kill pid)))
    (hu : s.inUser) (hkill : s.killable pid)
    (hpending : ∀ p, s'.pending p = (s.counted pid).pending p)
    (hprcount : s'.prcount = s.prcount - 1) (hhalted : s'.halted = s.halted)
    (hstackOf : ∀ p, s'.stackOf p = s.stackOf p) : ∃ g', Accounting g' s' own := by
  rcases h.plain.step henv hstep with ⟨g', _, hP'⟩
  have hlives := h.plain.lives henv hstep (fun n prio h => by cases h) fun h => by cases h
  have hcurr := h.plain.good.ok.curr
  have hlive : ¬ (s.proctab s.currpid).prstate = .free := by
    rw [hcurr]
    exact fun h => by cases h
  have hpend : ∀ p, s'.pending p = if p = s.currpid then [.killSent pid] else s.pending p :=
    fun p => (hpending p).trans (counted_pending hu p)
  refine ⟨g', hP', ?_, ?_, ?_, ?_⟩
  · intro hrun
    have hchange : (Xinu.allPids.map s'.standing).sum = (Xinu.allPids.map s.standing).sum +
        (s'.standing s.currpid - s.standing s.currpid) := by
      apply sum_map_change nodup_allPids (mem_allPids.mpr h.plain.good.ok.inv.valid_curr)
      intro p hp
      apply standing_congr (hlives p)
      rw [hpend, if_neg hp]
    have hone : s.standing s.currpid = 1 := by
      unfold Xinu.standing
      rw [pending_user hu, if_neg]
      exact fun h => h.elim hlive fun h => h rfl
    have hzero : s'.standing s.currpid = 0 := by
      apply if_pos
      right
      rw [hpend, if_pos rfl]
      exact List.cons_ne_nil _ _
    rw [hhalted] at hrun
    rw [hprcount, hchange, hone, hzero, h.sum hrun]
    rfl
  · intro p
    rw [hpend]
    split
    · exact Nat.le_refl 1
    · exact h.once p
  · intro p hp v hmem
    rw [killSent_mem, hpend] at hmem
    rw [ne_eq, hlives] at hp ⊢
    split at hmem
    · cases List.mem_singleton.mp hmem
      exact (Xinu.not_isbadpid_iff.mp hkill.1).2
    · rw [← killSent_mem] at hmem
      exact h.victims p hp v hmem
  · intro p
    rw [h.owned p, hstackOf p]
    simp only [hlives]

/-- Of a killer and its victim one counts, before the victim is freed and after it. -/
theorem standing_sum_freed (hvalid : ValidPid v) (hcurr : ValidPid s.currpid)
    (hidle : v ≠ s.currpid → s.pending v = [])
    (hlivec : (s.proctab s.currpid).prstate ≠ .free) (hlivev : (s.proctab v).prstate ≠ .free)
    (hpendc : s.pending s.currpid ≠ [])
    (hfreed : ∀ p, (s'.proctab p).prstate = .free ↔ p = v ∨ (s.proctab p).prstate = .free)
    (hpend : ∀ p, s'.pending p = if p = s.currpid then [] else s.pending p) :
    (Xinu.allPids.map s'.standing).sum = (Xinu.allPids.map s.standing).sum := by
  have hzero : s.standing s.currpid = 0 := if_pos (Or.inr hpendc)
  have hzero' : s'.standing v = 0 := if_pos (Or.inl ((hfreed v).mpr (Or.inl rfl)))
  have hother : ∀ p, p ≠ v → p ≠ s.currpid → s'.standing p = s.standing p := by
    intro p hpv hpc
    apply standing_congr
    · rw [hfreed]
      exact ⟨fun h => h.elim (fun h => absurd h hpv) id, Or.inr⟩
    · rw [hpend, if_neg hpc]
  by_cases hv : v = s.currpid
  · congr 1
    apply List.map_congr_left
    intro p _
    by_cases hp : p = v
    · rw [hp, hzero', hv, hzero]
    · exact hother p hp (hv ▸ hp)
  · -- the killer counts again, and its victim does not any more
    have hone : s.standing v = 1 := by
      unfold Xinu.standing
      rw [hidle hv, if_neg]
      exact fun h => h.elim hlivev fun h => h rfl
    have hone' : s'.standing s.currpid = 1 := by
      unfold Xinu.standing
      rw [hpend, if_pos rfl, if_neg]
      intro hor
      rcases hor with hf | hne
      · rcases (hfreed s.currpid).mp hf with hf | hf
        · exact hv hf.symm
        · exact hlivec hf
      · exact hne rfl
    have hchange : (Xinu.allPids.map fun p =>
        if p = v then s'.standing v else s.standing p).sum = _ :=
      sum_map_change (f := s.standing) nodup_allPids (mem_allPids.mpr hvalid)
        fun p hp => if_neg hp
    have hchange' : (Xinu.allPids.map s'.standing).sum = _ :=
      sum_map_change (f := fun p => if p = v then s'.standing v else s.standing p)
        nodup_allPids (mem_allPids.mpr hcurr) fun p hp => by
        split
        · rename_i hpv
          rw [hpv]
        · rename_i hpv
          exact hother p hpv hp
    rw [hchange', hchange, if_pos rfl, if_neg (Ne.symm hv), hone, hzero', hone', hzero]
    omega

/-- The second half of a {lit}`kill`. -/
theorem Accounting.frees (h : Accounting g s own) (hapart : KillsApart s .cont)
    (hs : s.stack s.currpid = .killSent v :: rest)
    (hstep : s.step .cont = some s') (haside : Aside s.currpid (s.unstacked v) s') :
    ∃ g', Accounting g' s' (noteStacks own s .cont s') := by
  have henv : TableCalls s .cont := trivial
  rcases h.plain.step henv hstep with ⟨g', _, hP'⟩
  have hfreed := h.plain.victim_freed hs hstep
  have hvictim := Xinu.victim_eq hs
  rcases hapart v hvictim with ⟨hidle, halone⟩
  have hcurr := h.plain.good.ok.curr
  have hlivec : (s.proctab s.currpid).prstate ≠ .free := by
    rw [hcurr]
    exact fun h => by cases h
  have hlivev : (s.proctab v).prstate ≠ .free := by
    apply h.victims s.currpid hlivec v
    rw [hs]
    exact List.mem_cons_self
  have hvalid : ValidPid v := h.plain.valid v ((h.plain.good.ok.inv.live v).mpr hlivev)
  have hrest : rest.filter Frame.finishes = [] := by
    have honce := h.once s.currpid
    unfold Xinu.pending at honce
    rw [hs, List.filter_cons_of_pos (by rfl), List.length_cons] at honce
    exact List.length_eq_zero_iff.mp (by omega)
  have hpend : ∀ p, s'.pending p = if p = s.currpid then [] else s.pending p := by
    intro p
    rw [haside.pending]
    have hpop : (s.unstacked v).pending p = s.pop.pending p := rfl
    rw [hpop, pop_pending hs, hrest]
  refine ⟨g', hP', ?_, ?_, ?_, ?_⟩
  · intro hrun
    have hhalted : s'.halted = s.halted := haside.halted
    have hprcount : s'.prcount = s.prcount := haside.prcount
    have hpendc : s.pending s.currpid ≠ [] := by
      unfold Xinu.pending
      rw [hs, List.filter_cons_of_pos (by rfl)]
      exact List.cons_ne_nil _ _
    rw [hhalted] at hrun
    rw [hprcount, h.sum hrun]
    exact (standing_sum_freed hvalid h.plain.good.ok.inv.valid_curr hidle hlivec hlivev hpendc
      hfreed hpend).symm
  · intro p
    rw [hpend]
    split
    · exact Nat.zero_le 1
    · exact h.once p
  · intro p hp u hmem
    rw [ne_eq, hfreed, not_or] at hp
    rw [killSent_mem, hpend] at hmem
    split at hmem
    · cases hmem
    · rename_i hpc
      rw [← killSent_mem] at hmem
      rw [ne_eq, hfreed, not_or]
      constructor
      · intro hu
        have hpvalid := h.plain.valid p ((h.plain.good.ok.inv.live p).mpr hp.2)
        exact halone p (mem_allPids.mpr hpvalid) hpc hp.2 (hu ▸ hmem)
      · exact h.victims p hp.2 u hmem
  · intro p
    unfold noteStacks
    dsimp only
    have hstackOf : s'.stackOf p = s.stackOf p := haside.stackOf p
    rw [hvictim, h.owned p, hstackOf]
    by_cases hp : p = v
    · rw [hp, if_pos rfl, if_pos ((hfreed v).mpr (Or.inl rfl))]
    · have hsome : ¬ some v = some p := fun he => hp (Option.some.inj he).symm
      have hiff : (s'.proctab p).prstate = .free ↔ (s.proctab p).prstate = .free := by
        rw [hfreed]
        exact ⟨fun h => h.elim (fun h => absurd h hp) id, Or.inr⟩
      rw [if_neg hsome]
      simp only [hiff]

theorem Accounting.step (h : Accounting g s own) (henv : TableCalls s l)
    (hapart : KillsApart s l) (hstep : s.step l = some s') :
    ∃ g', Accounting g' s' (noteStacks own s l s') := by
  have hkillNote : ∀ a : Call, (∀ n prio, a ≠ .create n prio) →
      noteStacks own s (.call a) s' = own := by
    intro a ha
    cases a with
    | create n prio => exact absurd rfl (ha n prio)
    | _ => rfl
  have hnever : ∀ {a : Call}, (∀ n prio, a ≠ .create n prio) → ∀ n prio,
      Label.call a ≠ .call (.create n prio) := fun ha n prio he => ha n prio (Label.call.inj he)
  cases h.plain.effect henv hstep with
  | @aside a hu hcreate hkill hpost htake haside =>
      exact h.same henv hstep (hnever hcreate) (fun h => by cases h) haside.pending
        haside.prcount haside.halted haside.stackOf
  | @createFails n prio next hu =>
      rcases h.plain.step henv hstep with ⟨g', _, hP'⟩
      refine ⟨g', hP', h.sum, h.once, h.victims, ?_⟩
      intro p
      unfold noteStacks
      dsimp only
      rw [if_neg fun hc => hc.2 hc.1]
      exact h.owned p
  | create hu hstk hpid hfree => exact h.create hstep henv hstk hpid hfree
  | @send pid msg hu haccepts haside =>
      apply h.same henv hstep (fun n prio h => by cases h) (fun h => by cases h)
      · exact haside.pending
      · exact haside.prcount
      · exact haside.halted
      · intro p
        rw [haside.stackOf, stackOf_deliver]
  | @killHalts pid hu hkill hlast =>
      rcases h.plain.step henv hstep with ⟨g', _, hP'⟩
      exact ⟨g', hP', fun hrun => Bool.noConfusion hrun, h.once, h.victims, h.owned⟩
  | @kill pid hu hkill hmore hrejects =>
      rw [hkillNote _ fun n prio h => by cases h]
      exact h.counts hstep henv hu hkill (fun _ => rfl) rfl rfl fun _ => rfl
  | @killSends pid _ hu hkill hmore haccepts haside =>
      rw [hkillNote _ fun n prio h => by cases h]
      apply h.counts hstep henv hu hkill
      · exact haside.pending
      · exact haside.prcount
      · exact haside.halted
      · intro p
        rw [haside.stackOf, stackOf_deliver]
        rfl
  | receiveWaits hu hmsg hkept =>
      apply h.same henv hstep (fun n prio h => by cases h) (fun h => by cases h)
      · intro p
        unfold Xinu.pending
        rw [hkept.stack]
        show (upd s.stack s.currpid (.receive :: s.stack s.currpid) p).filter _ = _
        rw [upd_apply]
        split
        · rename_i hp
          rw [hp]
          rfl
        · rfl
      · exact hkept.prcount
      · exact hkept.halted
      · intro p
        unfold Xinu.stackOf
        rw [(hkept.work p).prstkbase, (hkept.work p).prstklen]
        rfl
  | @takes a hu htake =>
      apply h.same henv hstep _ (fun h => by cases h)
      · exact fun _ => rfl
      · rfl
      · rfl
      · exact taken_stackOf s
      · intro n prio he
        cases he
        exact htake.1
  | @frame f rest hs hidle htake haside =>
      have hvictim : s.victim = none := by
        apply victim_none hs
        rintro pid rfl
        cases hidle
      apply h.same henv hstep (fun n prio h => by cases h) (fun _ => hvictim)
      · intro p
        rw [haside.pending]
        exact pop_pending_same hs (Frame.finishes_of_idle hidle) p
      · exact haside.prcount
      · exact haside.halted
      · exact haside.stackOf
  | @frameTakes f rest hs hf =>
      have hkills : f.finishes = false := by
        rcases hf with rfl | ⟨rfl, _⟩
        · rfl
        · rfl
      have hvictim : s.victim = none := by
        apply victim_none hs
        rintro pid rfl
        cases hkills
      apply h.same henv hstep (fun n prio h => by cases h) (fun _ => hvictim)
      · exact pop_pending_same hs hkills
      · rfl
      · rfl
      · exact taken_stackOf s.pop
  | killSent hs haside => exact h.frees hapart hs hstep haside

theorem Accounting.accounted (h : Accounting g s own) : Accounted s own where
  counted := by
    intro hrun hnone
    rw [h.sum hrun]
    unfold Xinu.liveCount
    congr 1
    apply List.map_congr_left
    intro p hp
    unfold Xinu.standing
    by_cases hfree : (s.proctab p).prstate = .free
    · rw [if_pos (Or.inl hfree), if_pos hfree]
    · rw [if_neg hfree, if_neg]
      exact fun hor => hor.elim hfree fun hne => hne (hnone p hp hfree)
  owned := h.owned
  freed := by
    intro v s' hvictim hapart hstep
    rcases h.plain.step (l := .cont) trivial hstep with ⟨g', ⟨f, rest, hs, rfl⟩, _⟩
    have hf : f = .killSent v := by
      unfold Xinu.victim at hvictim
      rw [hs] at hvictim
      cases f with
      | killSent pid =>
          cases hvictim
          rfl
      | _ => cases hvictim
    rw [hf] at hs
    have hlivev : (s.proctab v).prstate ≠ .free := by
      apply h.victims s.currpid _ v
      · rw [hs]
        exact List.mem_cons_self
      · rw [h.plain.good.ok.curr]
        exact fun h => by cases h
    constructor
    · rw [h.owned v, if_neg hlivev]
    · constructor
      · exact (h.plain.victim_freed hs hstep v).mpr (Or.inl rfl)
      · cases h.plain.effect (l := .cont) trivial hstep with
        | frame hs' hidle =>
            rw [hs] at hs'
            cases hs'
            cases hidle
        | frameTakes hs' hf =>
            rw [hs] at hs'
            cases hs'
            rcases hf with hf | ⟨hf, _⟩
            · cases hf
            · cases hf
        | killSent hs' haside =>
            rw [hs] at hs'
            cases hs'
            exact haside.mem

theorem newqueue_prcount : s.newqueue.2.prcount = s.prcount := by
  unfold Xinu.newqueue
  dsimp only
  split <;> rfl

theorem initSems_prcount (n : Nat) (i : Int) (s : Xinu) :
    (Xinu.initSems n i s).prcount = s.prcount := by
  induction n generalizing i s with
  | zero => rfl
  | succ n ih =>
      unfold Xinu.initSems
      rw [ih]
      exact newqueue_prcount

theorem initRwbs_prcount (n : Nat) (i : Int) (s : Xinu) :
    (Xinu.initRwbs n i s).prcount = s.prcount := by
  induction n generalizing i s with
  | zero => rfl
  | succ n ih =>
      unfold Xinu.initRwbs
      rw [ih]
      exact newqueue_prcount

/-- The null process is counted. -/
theorem sysinit_prcount (mem : Mem) (rand : Nat → Nat) :
    (Xinu.sysinit mem rand).prcount = 1 := by
  unfold Xinu.sysinit
  dsimp only [Xinu.setPreempt]
  rw [newqueue_prcount, newqueue_prcount, newqueue_prcount, initRwbs_prcount,
    initSems_prcount]
  rfl

end

/-- The stacks in use when the system starts. -/
def bootStacks (s : Xinu) : Int → Option (Nat × Nat) :=
  fun p => if (s.proctab p).prstate = .free then none else some (s.stackOf p)

/-- The system starts, and the observer notes the stacks in use. -/
def StackedBoot (t : Xinu × (Int → Option (Nat × Nat))) : Prop :=
  Booted t.1 ∧ t.2 = bootStacks t.1

theorem stackedBoot (s : Xinu) (h : Booted s) : StackedBoot (s, bootStacks s) := ⟨h, rfl⟩

/-- In every run in which kills stay apart, the count of processes is right outside the
middle of a kill, and no stack is freed twice or under a process that may still run. -/
theorem processes_accounted {t : Xinu × (Int → Option (Nat × Nat))}
    (h : Reach (observed Xinu.step noteStacks) (fun t l => TableCalls t.1 l ∧ KillsApart t.1 l)
      StackedBoot t) : Accounted t.1 t.2 := by
  have hinv : ∃ g, Accounting g t.1 t.2 := by
    apply h.invariant
    · intro t ht
      rcases ht.1 with ⟨mem, rand, hs⟩
      have hbase := (sysinit_booting mem rand).base
      have hstack : ∀ p, t.1.stack p = [] := by
        intro p
        rw [hs, hbase.stack]
        rfl
      have hpending : ∀ p, t.1.pending p = [] := by
        intro p
        unfold Xinu.pending
        rw [hstack]
        rfl
      refine ⟨bootView, ?_, ?_, ?_, ?_, ?_⟩
      · rw [hs]
        exact plain_sysinit .plain mem rand
      · intro _
        have hsingle : (Xinu.allPids.map t.1.standing).sum = t.1.standing NULLPROC := by
          apply sum_map_single nodup_allPids (mem_allPids.mpr (by decide))
          intro p hp
          apply if_pos
          left
          rw [hs, sysinit_proctab, if_neg hp]
        have hone : t.1.standing NULLPROC = 1 := by
          unfold Xinu.standing
          rw [hpending, hs, sysinit_proctab, if_pos rfl, if_neg]
          exact fun h => h.elim (fun h => by cases h) fun h => h rfl
        rw [hsingle, hone, hs]
        exact sysinit_prcount mem rand
      · intro p
        rw [hpending]
        exact Nat.zero_le 1
      · intro p _ v hmem
        rw [hstack] at hmem
        cases hmem
      · intro p
        rw [ht.2]
        rfl
    · intro t l t' _ hI henv hstep
      rcases hI with ⟨g, hA⟩
      rcases observed_eq hstep with ⟨hs, hrecord⟩
      rw [hrecord]
      exact hA.step henv.1 henv.2 hs
  rcases hinv with ⟨g, hA⟩
  exact hA.accounted

/-- A run with two kills, one after the other. -/
theorem processes_accounted_killed :
    ∃ t : Xinu × (Int → Option (Nat × Nat)), (t.1.prcount = 2 ∧ t.2 2 = none ∧ t.2 1 ≠ none) ∧
      Accounted t.1 t.2 := by
  have hrun : ∃ t, Reach (observed Xinu.step noteStacks)
      (fun t l => TableCalls t.1 l ∧ KillsApart t.1 l)
      StackedBoot t ∧
      (t.1.prcount = 2 ∧ t.2 2 = none ∧ t.2 1 ≠ none) :=
    exists_reach_of_follow (observed Xinu.step noteStacks)
      (fun t l => TableCalls t.1 l ∧ KillsApart t.1 l)
      (s := (sampleBoot, bootStacks sampleBoot)) (stackedBoot sampleBoot booted_sample)
      [.call (.create 4096 50), .call (.resume 1), .call (.create 4096 10),
        .call (.create 4096 60), .call (.kill 2), .cont, .call (.kill 3), .cont]
      (fun t => t.1.prcount = 2 ∧ t.2 2 = none ∧ t.2 1 ≠ none) (by decide +kernel)
  rcases hrun with ⟨t, ht, hp⟩
  exact ⟨t, hp, processes_accounted ht⟩

/-- Process 3 kills process 2.  The message to the parent 1 switches to it, and it kills
process 2 as well.  When process 3 goes on, it frees process 2 once more. -/
theorem killed_twice_miscounted :
    ¬ ∀ t : Xinu × (Int → Option (Nat × Nat)),
      Reach (observed Xinu.step noteStacks) (fun t => TableCalls t.1)
        StackedBoot t → Accounted t.1 t.2 := by
  intro hall
  have hrun : ∃ t, Reach (observed Xinu.step noteStacks) (fun t => TableCalls t.1)
      StackedBoot t ∧ (t.1.halted = false ∧
        (∀ p ∈ Xinu.allPids, (t.1.proctab p).prstate ≠ .free → t.1.pending p = []) ∧
        t.1.prcount ≠ t.1.liveCount) :=
    exists_reach_of_follow (observed Xinu.step noteStacks) (fun t => TableCalls t.1)
      (s := (sampleBoot, bootStacks sampleBoot)) (stackedBoot sampleBoot booted_sample)
      [.call (.create 4096 50), .call (.resume 1), .call (.create 4096 10),
        .call (.create 4096 20), .call (.resume 2), .cont, .call (.resume 3), .cont,
        .call .receive, .call (.kill 2), .cont, .call (.kill 2), .cont,
        .call .receive, .call .receive, .cont, .cont]
      (fun t => t.1.halted = false ∧
        (∀ p ∈ Xinu.allPids, (t.1.proctab p).prstate ≠ .free → t.1.pending p = []) ∧
        t.1.prcount ≠ t.1.liveCount) (by decide +kernel)
  rcases hrun with ⟨t, ht, hrunning, hnone, hne⟩
  exact hne ((hall t ht).counted hrunning hnone)

end BbbXinu
