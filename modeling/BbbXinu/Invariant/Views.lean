import BbbXinu.Invariant.Semaphores

/-!
# Steps that change the view

Tracked frames, flags and blocker entries are part of the view; changing one of
them changes the view in the same way and nothing else.
-/

namespace BbbXinu

open LinkedLists KeyedLists

section

variable {w : Watch} {g : View} {x q : Int} {s : Xinu}

theorem quiet_setMem (s : Xinu) (m : Mem) : Quiet s (s.setMem m) :=
  ⟨rfl, fun _ => rfl, fun _ => rfl, fun _ => rfl, fun _ => rfl, rfl, rfl, fun _ => rfl,
    rfl, rfl, rfl, rfl, rfl⟩

theorem quiet_setNextpid (s : Xinu) (pid : Int) : Quiet s (s.setNextpid pid) :=
  ⟨rfl, fun _ => rfl, fun _ => rfl, fun _ => rfl, fun _ => rfl, rfl, rfl, fun _ => rfl,
    rfl, rfl, rfl, rfl, rfl⟩

theorem Ok.setNextrwb (hO : Ok w g s) {rwb : Int} (h : ValidRwb rwb) :
    Ok w g (s.setNextrwb rwb) :=
  ⟨{ hO.inv with valid_nextrwb := h }, hO.curr, hO.top⟩

theorem quiet_setPrcount (s : Xinu) (n : Int) : Quiet s (s.setPrcount n) :=
  ⟨rfl, fun _ => rfl, fun _ => rfl, fun _ => rfl, fun _ => rfl, rfl, rfl, fun _ => rfl,
    rfl, rfl, rfl, rfl, rfl⟩

/-!
## Frames
-/

theorem Inv.push (hI : Inv w g x s) {f : Frame} (hf : f.tracked = true) :
    Inv w (g.setFrames s.currpid (f :: g.frames s.currpid)) x (s.push f) :=
  { hI with
    frames := fun p => by
      show (upd s.stack s.currpid (f :: s.stack s.currpid) p).filter Frame.tracked =
        upd g.frames s.currpid (f :: g.frames s.currpid) p
      rw [upd_apply, upd_apply]
      split
      · rw [List.filter_cons_of_pos hf, hI.frames]
      · exact hI.frames p }

theorem Ok.pushTracked (hO : Ok w g s) {f : Frame} (hf : f.tracked = true) :
    Ok w (g.setFrames s.currpid (f :: g.frames s.currpid)) (s.push f) :=
  ⟨hO.inv.push hf, hO.curr, hO.top⟩

theorem Ok.resetStack (hO : Ok w g s) (pid : Int) :
    Ok w (g.setFrames pid []) (s.resetStack pid) := by
  refine ⟨{ hO.inv with frames := ?_ }, hO.curr, hO.top⟩
  intro p
  show (upd s.stack pid [] p).filter Frame.tracked = upd g.frames pid [] p
  rw [upd_apply, upd_apply]
  split
  · rfl
  · exact hO.inv.frames p

/-- The top frame leaves the stack. -/
theorem Ok.pop {f : Frame} {rest : List Frame} (hO : Ok w g s)
    (hs : s.stack s.currpid = f :: rest) :
    Ok w (if f.tracked then g.setFrames s.currpid (g.frames s.currpid).tail else g) s.pop := by
  have hf := hO.inv.frames s.currpid
  rw [hs] at hf
  have hpop : ∀ p, (s.pop.stack p).filter Frame.tracked =
      if p = s.currpid then rest.filter Frame.tracked else g.frames p := by
    intro p
    show (upd s.stack s.currpid (s.stack s.currpid).tail p).filter Frame.tracked = _
    rw [upd_apply]
    split
    · rw [hs, List.tail_cons]
    · exact hO.inv.frames p
  split
  · rename_i htrack
    rw [List.filter_cons_of_pos htrack] at hf
    refine ⟨{ hO.inv with frames := ?_ }, hO.curr, hO.top⟩
    intro p
    rw [hpop p, ← hf, List.tail_cons]
    show _ = upd g.frames s.currpid _ p
    rw [upd_apply]
  · rename_i htrack
    rw [List.filter_cons_of_neg htrack] at hf
    refine ⟨{ hO.inv with frames := ?_ }, hO.curr, hO.top⟩
    intro p
    rw [hpop p]
    split
    · rename_i hp
      rw [hf, hp]
    · rfl

/-!
## Flags and blocker entries
-/

theorem Ok.setFlag (hO : Ok w g s) (pid flag : Int) :
    Ok w (g.setFlag pid flag) (s.setFlag pid flag) := by
  refine ⟨{ hO.inv with flags := ?_ }, hO.curr, hO.top⟩
  show upd s.rwbflags pid flag = upd g.flags pid flag
  rw [hO.inv.flags]

theorem Inv.setRwb (hI : Inv w g x s) (b : Int) {f : Rwbentry → Rwbentry}
    (hf : ∀ e, (f e).rwqueue = e.rwqueue) : Inv w (g.setRwb b f) x (s.setRwb b f) :=
  { hI with
    rwqueue := fun a ha => by
      show (upd s.rwbtab b (f (s.rwbtab b)) a).rwqueue = rwq a
      rw [upd_apply]
      split
      · rename_i hab
        rw [hf, ← hab]
        exact hI.rwqueue a ha
      · exact hI.rwqueue a ha
    tab := by
      show upd s.rwbtab b (f (s.rwbtab b)) = upd g.tab b (f (g.tab b))
      rw [hI.tab] }

theorem Ok.setRwb (hO : Ok w g s) (b : Int) {f : Rwbentry → Rwbentry}
    (hf : ∀ e, (f e).rwqueue = e.rwqueue) : Ok w (g.setRwb b f) (s.setRwb b f) :=
  ⟨hO.inv.setRwb b hf, hO.curr, hO.top⟩

/-- {lit}`prsem` of a process that does not wait can change. -/
theorem Inv.setPrsem (hI : Inv w g x s) {p : Int} (hp : (s.proctab p).prstate ≠ .wait)
    (v : Int) : Inv w g x (s.setProc p fun e => { e with prsem := v }) := by
  have hself := setProc_self s p fun e => { e with prsem := v }
  have hother : ∀ r, r ≠ p →
      (s.setProc p fun e => { e with prsem := v }).proctab r = s.proctab r :=
    fun r hr => setProc_of_ne s _ hr
  have hstate : ∀ r, ((s.setProc p fun e => { e with prsem := v }).proctab r).prstate =
      (s.proctab r).prstate := by
    intro r
    by_cases hr : r = p
    · rw [hr, hself]
    · rw [hother r hr]
  have hhome : ∀ r, home ((s.setProc p fun e => { e with prsem := v }).proctab r) =
      home (s.proctab r) := by
    intro r
    by_cases hr : r = p
    · rw [hr, hself]
      unfold home
      cases hc : (s.proctab p).prstate with
      | wait => exact absurd hc hp
      | _ => rfl
    · rw [hother r hr]
  exact { hI with
    mem_iff := fun q r => by
      rw [hhome]
      exact hI.mem_iff q r
    home_queue := fun r q h => hI.home_queue r q (hhome r ▸ h)
    waits_on := fun r h => by
      by_cases hr : r = p
      · rw [hr, hself] at h
        exact absurd h hp
      · rw [hother r hr] at h ⊢
        exact hI.waits_on r h
    live := fun r => by
      rw [hstate]
      exact hI.live r
    limbo := fun r h => by
      rw [hstate]
      exact hI.limbo r h
    lost := fun r h => by
      rw [hstate]
      exact hI.lost r h
    curr_unique := fun r h => hI.curr_unique r (hstate r ▸ h)
    null_state := by
      rw [hstate]
      exact hI.null_state
    keys := fun hw r hr => by
      have hprio := setProc_prprio s p r (f := fun e => { e with prsem := v }) fun _ => rfl
      rw [hprio]
      exact hI.keys hw r hr }

theorem Ok.setPrsem (hO : Ok w g s) {p : Int} (hp : (s.proctab p).prstate ≠ .wait)
    (v : Int) : Ok w g (s.setProc p fun e => { e with prsem := v }) := by
  have hprio := fun r => setProc_prprio s p r (f := fun e => { e with prsem := v }) fun _ => rfl
  refine ⟨hO.inv.setPrsem hp v, ?_, ?_⟩
  · show ((s.setProc p _).proctab s.currpid).prstate = .curr
    by_cases hr : s.currpid = p
    · have h1 := hO.curr
      rw [hr] at h1 ⊢
      rw [setProc_self]
      exact h1
    · rw [setProc_of_ne s _ hr]
      exact hO.curr
  · intro hw ht r hr
    show ((s.setProc p _).proctab r).prprio ≤ ((s.setProc p _).proctab s.currpid).prprio
    rw [hprio, hprio]
    exact hO.top hw ht r hr

/-- A process on the ready list is ready. -/
theorem prstate_of_home {e : Procent} (hw : e.prstate = .wait → WaitsOn e.prsem)
    (h : home e = some readylist) : e.prstate = .ready := by
  unfold home at h
  cases hc : e.prstate with
  | ready => rfl
  | wait =>
      rw [hc] at h
      have h1 : waitq e.prsem = readylist := Option.some.inj h
      rcases hw hc with h2 | ⟨h2, h3⟩
      · rw [waitq_sem h2] at h1
        exact absurd h1 (semq_ne_readylist h2)
      · unfold waitq at h1
        rw [if_pos h2] at h1
        exact absurd h1 (rwq_ne_readylist h3)
  | sleep =>
      rw [hc] at h
      exact absurd (Option.some.inj h) (by decide)
  | rectim =>
      rw [hc] at h
      exact absurd (Option.some.inj h) (by decide)
  | free => simp [hc] at h
  | curr => simp [hc] at h
  | recv => simp [hc] at h
  | susp => simp [hc] at h

theorem Inv.ready_of_mem (hI : Inv w g x s) {p : Int}
    (hp : p ∈ lists s.queuetab readylist) : (s.proctab p).prstate = .ready :=
  prstate_of_home (hI.waits_on p) ((hI.mem_iff readylist p).mp hp).1

end

end BbbXinu
