import BbbXinu.Invariant.Processes

/-!
# Blocker calls on views

The blockers, their queues and the half-finished signals form a machine of their
own inside the view.  Each routine of {lit}`rwblocker.c` acts on the view by the
function of the same name below.
-/

namespace BbbXinu

open LinkedLists KeyedLists

namespace View

variable (g : View)

def pushFrame (pid : Int) (f : Frame) : View := g.setFrames pid (f :: g.frames pid)

/-- A process joins the queue of a blocker. -/
def block (pid rwb : Int) : View :=
  (g.setRwb rwb fun e => { e with qcount := e.qcount + 1 }).append (rwq rwb) pid

def trywrite (pid rwb : Int) : View :=
  let g := g.setFlag pid (-1)
  if (g.tab rwb).rwcount ≠ 0 ∨ 0 < (g.tab rwb).qcount then g.block pid rwb
  else g.setRwb rwb fun e => { e with rwcount := e.rwcount - 1 }

def tryread (pid rwb : Int) : View :=
  let g := g.setFlag pid 1
  if (g.tab rwb).rwcount < 0 ∨ 0 < (g.tab rwb).qcount then g.block pid rwb
  else g.setRwb rwb fun e => { e with rwcount := e.rwcount + 1 }

/-- The first process of the queue is released; the signalling process keeps a
frame. -/
def release (pid rwb : Int) (after : Frame) : View :=
  ((g.setRwb rwb fun e => { e with qcount := e.qcount - 1 }).pushFrame pid after).pop (rwq rwb)

def signalReaders (pid thisid rwb next_is_writer : Int) : View :=
  if next_is_writer = 1 then g.release pid rwb (.rwbReader thisid rwb) else g

/-- The flag of the first process of the queue. -/
def nextFlag (rwb : Int) : Int :=
  match g.lists (rwq rwb) with
  | [] => 0
  | nextpid :: _ => g.flags nextpid

def signalReader (pid thisid rwb : Int) : View :=
  let g := g.setRwb rwb fun e => { e with rwcount := e.rwcount + 1 }
  g.signalReaders pid thisid rwb (g.nextFlag rwb)

def signalWriter (rwb : Int) : View :=
  g.setRwb rwb fun e => { e with rwcount := e.rwcount - 1 }

def signalNext (pid thisid rwb : Int) : View :=
  match g.lists (rwq rwb) with
  | [] => g
  | nextpid :: _ =>
      if g.flags nextpid = -1 then
        if (g.tab rwb).rwcount = 0 then g.release pid rwb (.rwbWriter thisid rwb) else g
      else g.signalReaders pid thisid rwb (g.flags nextpid)

def signalrwb (pid thisid rwb : Int) : View :=
  let is_writer := g.flags thisid
  let g := g.setFlag thisid 0
  let g := g.setRwb rwb fun e =>
    { e with rwcount := if is_writer = -1 then e.rwcount + 1 else e.rwcount - 1 }
  g.signalNext pid thisid rwb

def create (rwb count : Int) : View :=
  (g.setRwb rwb fun e => { e with rwstate := .used }).setRwb rwb fun e =>
    { e with rwcount := count }

/-- One round of the loop of {lit}`rwbdelete`. -/
def deleteOne (rwb : Int) : View :=
  let g := g.setRwb rwb fun e => { e with qcount := e.qcount - 1 }
  match g.lists (rwq rwb) with
  | [] => g
  | pid :: l => (g.setList (rwq rwb) l).setFlag pid 0

def deleteLoop (rwb : Int) : Nat → View → View
  | 0, g => g
  | n + 1, g => deleteLoop rwb n (g.deleteOne rwb)

def delete (rwb : Int) : View :=
  let g := g.setRwb rwb fun e => { e with rwstate := .free }
  let g := deleteLoop rwb (g.tab rwb).qcount.toNat g
  let g := g.setRwb rwb fun e => { e with qcount := e.qcount - 1 }
  g.setRwb rwb fun e => { e with rwcount := 0 }

/-- One round of the loop of {lit}`rwbreset`: the process is dropped. -/
def resetOne (rwb pid : Int) (l : List Int) : View :=
  ((g.setList (rwq rwb) l).setLost fun p => p = pid ∨ g.lost p).setRwb rwb fun e =>
    { e with qcount := e.qcount - 1 }

def resetLoop (rwb : Int) : List Int → View → View
  | [], g => g
  | pid :: l, g => resetLoop rwb l (g.resetOne rwb pid l)

def reset (rwb count : Int) : View :=
  (resetLoop rwb (g.lists (rwq rwb)) g).setRwb rwb fun e => { e with rwcount := count }

end View

section

variable {w : Watch} {g : View} {x q : Int} {s : Xinu} {rwb thisid pid : Int}

theorem not_isbadrwb_iff : ¬ s.isbadrwb rwb ↔
    ValidRwb rwb ∧ (s.rwbtab rwb).rwstate ≠ .free := by
  unfold Xinu.isbadrwb ValidRwb
  rw [not_or, not_or, Int.not_lt, Int.not_le, and_assoc]

theorem Inv.good_of_mem (hI : Inv w g x s) (h : pid ∈ lists s.queuetab q) :
    ¬ s.isbadpid pid := by
  have hhome := ((hI.mem_iff q pid).mp h).1
  rw [Xinu.not_isbadpid_iff]
  refine ⟨(hI.home_queue pid q hhome).1, ?_⟩
  intro hfree
  rw [home_free hfree] at hhome
  cases hhome

/-!
## Entering
-/

theorem rwbBlock_ok (hO : Ok w g s) (hdef : g.defers = 0) (hnull : s.currpid ≠ NULLPROC)
    (hb : ValidRwb rwb) : Ok w (g.block s.currpid rwb) (s.rwbBlock rwb) := by
  unfold Xinu.rwbBlock
  dsimp only
  have hq : Quiet s ((s.push (.ret OK)).recordCpuqdata (s.push (.ret OK)).currpid) :=
    (quiet_push s rfl).trans (quiet_recordCpuqdata _ _)
  generalize (s.push (.ret OK)).recordCpuqdata (s.push (.ret OK)).currpid = s₁ at hq ⊢
  have hO₁ := (hO.quiet hq).setRwb rwb (f := fun e => { e with qcount := e.qcount + 1 })
    fun _ => rfl
  have hrwq := hO₁.inv.rwqueue rwb hb
  rw [← hq.currpid] at hnull ⊢
  show Ok w _ ((((s₁.setRwb rwb fun e => { e with qcount := e.qcount + 1 }).setProc s₁.currpid
    fun e => { e with prstate := .wait, prsem := -1 * (rwb + 2) }).enqueue s₁.currpid
      ((s₁.setRwb rwb fun e => { e with qcount := e.qcount + 1 }).rwbtab rwb).rwqueue).resched)
  rw [hrwq]
  have hrwb := hb.1
  apply block_ok hO₁ (Int.le_of_eq hdef) hnull
  · rfl
  · exact waitq_rwb hrwb
  · right
    refine ⟨?_, ?_⟩
    · show -1 * (rwb + 2) < -1
      omega
    · have h1 : -1 * (-1 * (rwb + 2) + 2) = rwb := by omega
      show ValidRwb (-1 * (-1 * (rwb + 2) + 2))
      rw [h1]
      exact hb
  · exact isQueue_rwq hb
  · exact rwq_ne_readylist hb
  · exact rwq_ne_sleepq hb

theorem rwbTrywrite_ok (hO : Ok w g s) (hdef : g.defers = 0)
    (hnull : s.currpid = NULLPROC → ¬ s.blocks (.rwbTrywrite rwb)) :
    (s.isbadrwb rwb → Ok w g (s.rwbTrywrite rwb)) ∧
      (¬ s.isbadrwb rwb → Ok w (g.trywrite s.currpid rwb) (s.rwbTrywrite rwb)) := by
  unfold Xinu.rwbTrywrite
  refine ⟨?_, ?_⟩
  · intro hbad
    rw [if_pos hbad]
    exact hO.ret _
  · intro hgood
    have hvalid := not_isbadrwb_iff.mp hgood
    rw [if_neg hgood, if_neg hvalid.2]
    dsimp only
    have hO₁ := hO.setFlag s.currpid (-1)
    unfold View.trywrite
    dsimp only
    have htab : (s.setFlag s.currpid (-1)).rwbtab = (g.setFlag s.currpid (-1)).tab :=
      hO.inv.tab
    rw [htab]
    split
    · rename_i hblock
      have hblocks : s.blocks (.rwbTrywrite rwb) := ⟨hgood, by rw [hO.inv.tab]; exact hblock⟩
      exact rwbBlock_ok hO₁ hdef (fun h => hnull h hblocks) hvalid.1
    · exact (hO₁.setRwb rwb (by intro _; rfl)).ret _

theorem rwbTryread_ok (hO : Ok w g s) (hdef : g.defers = 0)
    (hnull : s.currpid = NULLPROC → ¬ s.blocks (.rwbTryread rwb)) :
    (s.isbadrwb rwb → Ok w g (s.rwbTryread rwb)) ∧
      (¬ s.isbadrwb rwb → Ok w (g.tryread s.currpid rwb) (s.rwbTryread rwb)) := by
  unfold Xinu.rwbTryread
  refine ⟨?_, ?_⟩
  · intro hbad
    rw [if_pos hbad]
    exact hO.ret _
  · intro hgood
    have hvalid := not_isbadrwb_iff.mp hgood
    rw [if_neg hgood, if_neg hvalid.2]
    dsimp only
    have hO₁ := hO.setFlag s.currpid 1
    unfold View.tryread
    dsimp only
    have htab : (s.setFlag s.currpid 1).rwbtab = (g.setFlag s.currpid 1).tab := hO.inv.tab
    rw [htab]
    split
    · rename_i hblock
      have hblocks : s.blocks (.rwbTryread rwb) := ⟨hgood, by rw [hO.inv.tab]; exact hblock⟩
      exact rwbBlock_ok hO₁ hdef (fun h => hnull h hblocks) hvalid.1
    · exact (hO₁.setRwb rwb (by intro _; rfl)).ret _

/-!
## Signalling
-/

theorem signalrwbEnd_ok (hO : Ok w g s) (hthis : (s.proctab thisid).prstate ≠ .wait) :
    Ok w g (s.signalrwbEnd thisid) :=
  (hO.setPrsem hthis (-1)).ret _

theorem signalrwbRelease_ok (hO : Ok w g s) (hb : ValidRwb rwb) {l : List Int}
    (hL : g.lists (rwq rwb) = pid :: l) {after : Frame} (hafter : after.tracked = true) :
    Ok w (g.release s.currpid rwb after) (s.signalrwbRelease rwb after) := by
  have hO₁ := hO.setRwb rwb (f := fun e => { e with qcount := e.qcount - 1 }) fun _ => rfl
  unfold Xinu.signalrwbRelease
  dsimp only
  rw [hO₁.inv.rwqueue rwb hb]
  have heq := hO₁.inv.lists_eq (rwq rwb) (rwq_ne_readylist hb)
  rcases Xinu.dequeue_cons hO₁.inv.queues (isQueue_rwq hb) (heq.trans hL) with
    ⟨t, ht, hQ, hk⟩
  rw [ht]
  have hO₂ := hO₁.pushTracked hafter
  have h := release_ok hO₂ hL (rwq_ne_readylist hb)
    (fun _ h => absurd h (rwq_ne_sleepq hb)) hQ hk
  unfold View.release View.pop
  have hl : ((g.setRwb rwb fun e => { e with qcount := e.qcount - 1 }).pushFrame s.currpid
      after).lists (rwq rwb) = pid :: l := hL
  rw [hl]
  exact h

/-- The flag that the loop of {lit}`_signalrwb` looks at next. -/
theorem nextFlag_eq (hI : Inv w g x s) (hb : ValidRwb rwb) :
    (if s.isbadpid (s.firstid (s.rwbtab rwb).rwqueue) then 0
      else s.rwbflags (s.firstid (s.rwbtab rwb).rwqueue)) = g.nextFlag rwb := by
  rw [hI.rwqueue rwb hb]
  have heq := hI.lists_eq (rwq rwb) (rwq_ne_readylist hb)
  unfold View.nextFlag
  cases hL : g.lists (rwq rwb) with
  | nil =>
      have hempty := (Xinu.isempty_iff hI.queues (isQueue_rwq hb)).mpr (heq.trans hL)
      have hbad : s.isbadpid (s.firstid (rwq rwb)) := Or.inr (Or.inl hempty)
      rw [if_pos hbad]
  | cons n l =>
      have hfirst : s.firstid (rwq rwb) = n :=
        hI.queues.firstid_cons (isQueue_rwq hb) (heq.trans hL)
      have hmem : n ∈ lists s.queuetab (rwq rwb) := by
        rw [heq, hL]
        exact List.mem_cons_self
      rw [hfirst, if_neg (hI.good_of_mem hmem), hI.flags]

theorem signalrwbReaders_ok (hO : Ok w g s) (hb : ValidRwb rwb)
    (hthis : (s.proctab thisid).prstate ≠ .wait) :
    Ok w (g.signalReaders s.currpid thisid rwb (g.nextFlag rwb))
      (s.signalrwbReaders thisid rwb (g.nextFlag rwb)) := by
  unfold View.signalReaders Xinu.signalrwbReaders
  split
  · rename_i hflag
    cases hL : g.lists (rwq rwb) with
    | nil =>
        unfold View.nextFlag at hflag
        rw [hL] at hflag
        cases hflag
    | cons n l => exact signalrwbRelease_ok hO hb hL (by rfl)
  · exact signalrwbEnd_ok hO hthis

theorem signalrwbReader_ok (hO : Ok w g s) (hb : ValidRwb rwb)
    (hthis : (s.proctab thisid).prstate ≠ .wait) :
    Ok w (g.signalReader s.currpid thisid rwb) (s.signalrwbReader thisid rwb) := by
  have hO₁ := hO.setRwb rwb (f := fun e => { e with rwcount := e.rwcount + 1 }) fun _ => rfl
  unfold Xinu.signalrwbReader View.signalReader
  dsimp only
  rw [nextFlag_eq hO₁.inv hb]
  exact signalrwbReaders_ok hO₁ hb hthis

theorem signalrwbWriter_ok (hO : Ok w g s) (hthis : (s.proctab thisid).prstate ≠ .wait) :
    Ok w (g.signalWriter rwb) (s.signalrwbWriter thisid rwb) :=
  signalrwbEnd_ok (hO.setRwb rwb fun _ => rfl) hthis

theorem signalrwbNext_ok (hO : Ok w g s) (hb : ValidRwb rwb)
    (hthis : (s.proctab thisid).prstate ≠ .wait) :
    Ok w (g.signalNext s.currpid thisid rwb) (s.signalrwbNext thisid rwb) := by
  have heq := hO.inv.lists_eq (rwq rwb) (rwq_ne_readylist hb)
  have hempty := Xinu.isempty_iff hO.inv.queues (isQueue_rwq hb)
  have hflag := nextFlag_eq hO.inv hb
  unfold Xinu.signalrwbNext View.signalNext
  rw [hO.inv.rwqueue rwb hb] at hflag ⊢
  dsimp only
  cases hL : g.lists (rwq rwb) with
  | nil =>
      rw [if_pos (hempty.mpr (heq.trans hL))]
      exact signalrwbEnd_ok hO hthis
  | cons n l =>
      have hmem : n ∈ lists s.queuetab (rwq rwb) := by
        rw [heq, hL]
        exact List.mem_cons_self
      have hfirst : s.firstid (rwq rwb) = n :=
        hO.inv.queues.firstid_cons (isQueue_rwq hb) (heq.trans hL)
      have hne : ¬ s.isempty (rwq rwb) := by
        rw [hempty, heq, hL]
        simp
      have hreaders := signalrwbReaders_ok hO hb hthis
      have hnext : g.nextFlag rwb = g.flags n := by
        unfold View.nextFlag
        rw [hL]
      rw [hnext] at hreaders
      rw [if_neg hne, hfirst, if_neg (hO.inv.good_of_mem hmem), hO.inv.flags,
        hO.inv.tab]
      dsimp only
      split
      · split
        · exact signalrwbRelease_ok hO hb hL (by rfl)
        · exact signalrwbEnd_ok hO hthis
      · exact hreaders

theorem _signalrwb_ok (rwb : Int) (hO : Ok w g s) (hthis : (s.proctab thisid).prstate ≠ .wait) :
    (s.isbadrwb rwb ∨ s.isbadpid thisid → Ok w g (s._signalrwb thisid rwb)) ∧
      (¬ s.isbadrwb rwb → ¬ s.isbadpid thisid →
        Ok w (g.signalrwb s.currpid thisid rwb) (s._signalrwb thisid rwb)) := by
  unfold Xinu._signalrwb
  refine ⟨?_, ?_⟩
  · intro hbad
    split
    · exact hO.ret _
    · rename_i hgood
      rw [if_pos (hbad.resolve_left hgood)]
      exact hO.ret _
  · intro hrwb hpid
    have hvalid := not_isbadrwb_iff.mp hrwb
    rw [if_neg hrwb, if_neg hpid]
    dsimp only
    rw [if_neg (by exact hvalid.2), hO.inv.flags]
    unfold View.signalrwb
    dsimp only
    exact signalrwbNext_ok ((hO.setFlag thisid 0).setRwb rwb (by intro _; rfl)) hvalid.1 hthis

/-!
## Creating, deleting and resetting
-/

theorem newrwbLoop_spec (n : Nat) (hO : Ok w g s) :
    ((Xinu.newrwbLoop n s).1 = SYSERR ∧ Ok w g (Xinu.newrwbLoop n s).2) ∨
      ValidRwb (Xinu.newrwbLoop n s).1 ∧
        (s.rwbtab (Xinu.newrwbLoop n s).1).rwstate = .free ∧
        Ok w (g.setRwb (Xinu.newrwbLoop n s).1 fun e => { e with rwstate := .used })
          (Xinu.newrwbLoop n s).2 := by
  induction n generalizing s with
  | zero => exact Or.inl ⟨rfl, hO⟩
  | succ n ih =>
      have hv := hO.inv.valid_nextrwb
      have hnext : ValidRwb (if RWB_COUNT ≤ s.nextrwb + 1 then 0 else s.nextrwb + 1) := by
        unfold ValidRwb at hv ⊢
        split
        · exact ⟨Int.le_refl 0, by decide⟩
        · omega
      unfold Xinu.newrwbLoop
      dsimp only
      generalize (if RWB_COUNT ≤ s.nextrwb + 1 then 0 else s.nextrwb + 1) = next at hnext ⊢
      have hO₁ := hO.setNextrwb hnext
      split
      · rename_i hfree
        exact Or.inr ⟨hv, hfree, hO₁.setRwb s.nextrwb (by intro _; rfl)⟩
      · exact ih hO₁

theorem rwbcreate_ok (hO : Ok w g s) (count : Int) :
    ∃ g', (g' = g ∨ 0 ≤ count ∧ ValidRwb s.newrwb.1 ∧
        (s.rwbtab s.newrwb.1).rwstate = .free ∧ g' = g.create s.newrwb.1 count) ∧
      Ok w g' (s.rwbcreate count) := by
  unfold Xinu.rwbcreate
  split
  · exact ⟨g, Or.inl rfl, hO.ret _⟩
  · rename_i hcount
    dsimp only
    rcases newrwbLoop_spec RWB_COUNT.toNat hO with ⟨herr, hO₁⟩ | ⟨hv, hfree, hO₁⟩
    · have herr' : s.newrwb.1 = SYSERR := herr
      rw [if_pos herr']
      exact ⟨g, Or.inl rfl, hO₁.ret _⟩
    · have hsome : s.newrwb.1 ≠ SYSERR := by
        intro h
        have h1 : ValidRwb s.newrwb.1 := hv
        rw [h] at h1
        exact absurd h1 (by decide)
      rw [if_neg hsome]
      refine ⟨_, Or.inr ⟨Int.not_lt.mp hcount, hv, hfree, rfl⟩, ?_⟩
      exact (hO₁.setRwb _ (by intro _; rfl)).ret _

theorem prstate_of_rwq {e : Procent} (hb : ValidRwb rwb) (h : home e = some (rwq rwb)) :
    e.prstate = .wait := by
  unfold home at h
  cases hc : e.prstate with
  | wait => rfl
  | ready =>
      rw [hc] at h
      exact absurd (Option.some.inj h).symm (rwq_ne_readylist hb)
  | sleep =>
      rw [hc] at h
      exact absurd (Option.some.inj h).symm (rwq_ne_sleepq hb)
  | rectim =>
      rw [hc] at h
      exact absurd (Option.some.inj h).symm (rwq_ne_sleepq hb)
  | free => simp [hc] at h
  | curr => simp [hc] at h
  | recv => simp [hc] at h
  | susp => simp [hc] at h

theorem rwbdeleteLoop_ok (hb : ValidRwb rwb) (n : Nat) (hO : Ok w g s) :
    Ok w (View.deleteLoop rwb n g) (Xinu.rwbdeleteLoop rwb n s) := by
  induction n generalizing g s with
  | zero => exact hO
  | succ n ih =>
      apply ih
      have hO₁ := hO.setRwb rwb (f := fun e => { e with qcount := e.qcount - 1 }) fun _ => rfl
      rw [hO₁.inv.rwqueue rwb hb]
      unfold View.deleteOne
      dsimp only
      generalize (s.setRwb rwb fun e => { e with qcount := e.qcount - 1 }) = s₁ at hO₁ ⊢
      have heq := hO₁.inv.lists_eq (rwq rwb) (rwq_ne_readylist hb)
      generalize (g.setRwb rwb fun e => { e with qcount := e.qcount - 1 }) = g₁ at hO₁ heq ⊢
      cases hL : g₁.lists (rwq rwb) with
      | nil =>
          rw [Xinu.getfirst_nil hO₁.inv.queues (isQueue_rwq hb) (heq.trans hL),
            if_pos (isbadpid_empty s₁)]
          exact hO₁
      | cons n l =>
          have hmem : n ∈ lists s₁.queuetab (rwq rwb) := by
            rw [heq, hL]
            exact List.mem_cons_self
          rcases Xinu.getfirst_cons hO₁.inv.queues (isQueue_rwq hb) (heq.trans hL) with
            ⟨t, ht, hQ, hk⟩
          have hbad₁ : ¬ s₁.isbadpid n := hO₁.inv.good_of_mem hmem
          have hbad : ¬ (s₁.setQueuetab t).isbadpid n := hbad₁
          rw [ht]
          dsimp only
          rw [if_neg hbad]
          have h := release_ok (hO₁.setFlag n 0) hL (rwq_ne_readylist hb)
            (fun _ h => absurd h (rwq_ne_sleepq hb)) hQ hk
          exact h

theorem View.deleteOne_defers (g : View) : (g.deleteOne rwb).defers = g.defers := by
  unfold View.deleteOne
  dsimp only
  split <;> rfl

theorem View.deleteLoop_defers (n : Nat) (g : View) :
    (View.deleteLoop rwb n g).defers = g.defers := by
  induction n generalizing g with
  | zero => rfl
  | succ n ih => exact (ih _).trans g.deleteOne_defers

theorem View.deleteLoop_setDefers (n : Nat) (g : View) (d : Int) :
    View.deleteLoop rwb n (g.setDefers d) = (View.deleteLoop rwb n g).setDefers d := by
  induction n generalizing g with
  | zero => rfl
  | succ n ih =>
      unfold View.deleteLoop
      rw [← ih]
      congr 1
      unfold View.deleteOne
      show (match g.lists (rwq rwb) with
        | [] => _
        | pid :: l => _) = View.setDefers (match g.lists (rwq rwb) with
        | [] => _
        | pid :: l => _) d
      split <;> rfl

theorem rwbdelete_ok (hO : Ok w g s) (hdef : g.defers = 0) :
    (s.isbadrwb rwb → Ok w g (s.rwbdelete rwb)) ∧
      (¬ s.isbadrwb rwb → Ok w (g.delete rwb) (s.rwbdelete rwb)) := by
  unfold Xinu.rwbdelete
  refine ⟨?_, ?_⟩
  · intro hbad
    rw [if_pos hbad]
    exact hO.ret _
  · intro hgood
    have hvalid := not_isbadrwb_iff.mp hgood
    rw [if_neg hgood, if_neg hvalid.2]
    dsimp only
    have hO₁ := (hO.push (f := .ret OK) rfl).setRwb rwb
      (f := fun e => { e with rwstate := .free }) fun _ => rfl
    have hO₂ := deferStart_ok hO₁ hdef
    rw [show (Xinu.reschedCntl _ DEFER_START).rwbtab = _ from hO₂.inv.tab]
    have hO₃ := rwbdeleteLoop_ok hvalid.1
      (((g.setRwb rwb fun e => { e with rwstate := .free }).setDefers 1).tab rwb).qcount.toNat hO₂
    rw [View.deleteLoop_setDefers] at hO₃
    have hO₄ := (hO₃.setRwb rwb (f := fun e => { e with qcount := e.qcount - 1 })
      fun _ => rfl).setRwb rwb (f := fun e => { e with rwcount := 0 }) fun _ => rfl
    have hO₅ := deferStop_ok hO₄ rfl
    have hview : (g.delete rwb).setDefers 0 = g.delete rwb := by
      apply View.setDefers_zero
      exact (View.deleteLoop_defers _ _).trans hdef
    rw [← hview]
    exact hO₅

/-- A waiting process is taken off its queue and dropped. -/
theorem drop_ok {l : List Int} {t : Int → Qentry} (hO : Ok w g s) (hb : ValidRwb rwb)
    (hL : g.lists (rwq rwb) = pid :: l)
    (hQ : Queues t (upd (lists s.queuetab) (rwq rwb) l))
    (hk : ∀ i, (t i).qkey = (s.queuetab i).qkey) :
    Ok w ((g.setList (rwq rwb) l).setLost fun p => p = pid ∨ g.lost p) (s.setQueuetab t) := by
  have hr := rwq_ne_readylist hb
  have hL' := (hO.inv.lists_eq (rwq rwb) hr).trans hL
  have hmem : pid ∈ lists s.queuetab (rwq rwb) := by
    rw [hL']
    exact List.mem_cons_self
  have herase : (lists s.queuetab (rwq rwb)).erase pid = l := by
    rw [hL', List.erase_cons_head]
  have hwait := prstate_of_rwq hb ((hO.inv.mem_iff _ _).mp hmem).1
  have hI : Inv w (g.setList (rwq rwb) l) pid (s.setQueuetab t) := by
    apply hO.inv.remove hmem (fun _ => hr) (fun _ h => absurd h (rwq_ne_sleepq hb)) _ hk
    · rw [herase]
      exact hO.inv.lists_upd
    · rw [herase]
      exact hQ
  refine ⟨hI.to_lost hwait, hO.curr, ?_⟩
  intro hw ht p hp
  apply hO.top hw ht
  have h1 : p ∈ lists t readylist := hp
  rw [hQ.lists_upd (isQueue_rwq hb), upd_of_ne hr.symm] at h1
  exact h1

theorem rwbresetLoop_ok (hb : ValidRwb rwb) (n : Nat) (hO : Ok w g s)
    (hlen : (g.lists (rwq rwb)).length < n) :
    (Xinu.rwbresetLoop rwb (rwq rwb) n s).1 = EMPTY ∧
      Ok w (View.resetLoop rwb (g.lists (rwq rwb)) g)
        (Xinu.rwbresetLoop rwb (rwq rwb) n s).2 := by
  induction n generalizing g s with
  | zero => exact absurd hlen (Nat.not_lt_zero _)
  | succ n ih =>
      have heq := hO.inv.lists_eq (rwq rwb) (rwq_ne_readylist hb)
      unfold Xinu.rwbresetLoop
      dsimp only
      cases hL : g.lists (rwq rwb) with
      | nil =>
          rw [Xinu.getfirst_nil hO.inv.queues (isQueue_rwq hb) (heq.trans hL)]
          exact ⟨rfl, hO⟩
      | cons pid l =>
          rcases Xinu.getfirst_cons hO.inv.queues (isQueue_rwq hb) (heq.trans hL) with
            ⟨t, ht, hQ, hk⟩
          have hmem : pid ∈ lists s.queuetab (rwq rwb) := by
            rw [heq, hL]
            exact List.mem_cons_self
          have hne := hO.inv.ne_empty ((hO.inv.mem_iff _ _).mp hmem).1
          rw [ht]
          dsimp only
          rw [if_neg hne]
          have hO₁ : Ok w (g.resetOne rwb pid l) _ :=
            (drop_ok hO hb hL hQ hk).setRwb rwb (f := fun e =>
              { e with qcount := e.qcount - 1 }) fun _ => rfl
          have hl : (g.resetOne rwb pid l).lists (rwq rwb) = l := g.setList_at (rwq rwb) l
          have hlen₁ : ((g.resetOne rwb pid l).lists (rwq rwb)).length < n := by
            rw [hl]
            rw [hL, List.length_cons] at hlen
            exact Nat.lt_of_succ_lt_succ hlen
          have h := ih hO₁ hlen₁
          rw [hl] at h
          exact h

theorem View.resetLoop_defers (l : List Int) (g : View) :
    (View.resetLoop rwb l g).defers = g.defers := by
  induction l generalizing g with
  | nil => rfl
  | cons pid l ih => exact ih _

theorem View.resetLoop_setDefers (l : List Int) (g : View) (d : Int) :
    View.resetLoop rwb l (g.setDefers d) = (View.resetLoop rwb l g).setDefers d := by
  induction l generalizing g with
  | nil => rfl
  | cons pid l ih => exact ih (g.resetOne rwb pid l)

theorem rwbreset_ok (hO : Ok w g s) (hdef : g.defers = 0) {count : Int} :
    (count < 0 ∨ s.isbadrwb rwb → Ok w g (s.rwbreset rwb count)) ∧
      (0 ≤ count → ¬ s.isbadrwb rwb → Ok w (g.reset rwb count) (s.rwbreset rwb count)) := by
  unfold Xinu.rwbreset
  refine ⟨?_, ?_⟩
  · intro hbad
    rw [if_pos (hbad.imp id Or.inl)]
    exact hO.ret _
  · intro hcount hgood
    have hvalid := not_isbadrwb_iff.mp hgood
    have hpass : ¬ (count < 0 ∨ s.isbadrwb rwb ∨ (s.rwbtab rwb).rwstate = .free) := by
      rintro (h | h | h)
      · omega
      · exact hgood h
      · exact hvalid.2 h
    rw [if_neg hpass]
    dsimp only
    have hrwq : ((s.push (.ret OK)).rwbtab rwb).rwqueue = rwq rwb := hO.inv.rwqueue rwb hvalid.1
    rw [hrwq]
    have hO₁ := deferStart_ok (hO.push (f := .ret OK) rfl) hdef
    have hlen : ((g.setDefers 1).lists (rwq rwb)).length < Xinu.queueFuel := by
      have h1 : (lists s.queuetab (rwq rwb)).length ≤ 100 :=
        hO.inv.length_le (isQueue_rwq hvalid.1)
      rw [hO.inv.lists_eq _ (rwq_ne_readylist hvalid.1)] at h1
      exact Nat.lt_of_le_of_lt h1 (by decide)
    rcases rwbresetLoop_ok hvalid.1 Xinu.queueFuel hO₁ hlen with ⟨hempty, hO₂⟩
    rw [hempty, if_pos (isbadpid_empty _)]
    rw [View.resetLoop_setDefers] at hO₂
    have hO₃ := deferStop_ok
      (hO₂.setRwb rwb (f := fun e => { e with rwcount := count }) fun _ => rfl) rfl
    have hview : (g.reset rwb count).setDefers 0 = g.reset rwb count := by
      apply View.setDefers_zero
      exact (View.resetLoop_defers _ _).trans hdef
    rw [← hview]
    exact hO₃

end

end BbbXinu
