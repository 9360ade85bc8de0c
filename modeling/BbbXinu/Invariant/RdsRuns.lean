import BbbXinu.Invariant.RdsBuffers

/-!
# Runs of the remote disk

Whose phase a step changes, who asks for something in it, and what holds in every state of
an orderly run.
-/

namespace BbbXinu
namespace Rds

/-!
## What a step leaves alone
-/

/-- The process that makes a step, unless it is {lit}`rdsprocess`. -/
def Label.pid : Label → Option Int
  | .read pid _ | .write pid _ _ | .sync pid | .delete pid | .deleted pid _ | .alloc pid
  | .receive pid => some pid
  | .comm => none

/-- No process has moved, and nothing was asked for. -/
def Disk.Apart (s s' : Disk) : Prop := s'.phase = s.phase ∧ s'.log.asked = s.log.asked

/-- Nobody has asked to synchronize the disk, or is about to. -/
def Disk.Unsynced (s : Disk) : Prop :=
  (∀ p, s.phase p ≠ .allocSync) ∧ ∀ r ∈ s.log.asked, r.op ≠ .sync

section Frame

variable {s s' : Disk} {pid p : Int}

theorem rdsbufalloc_apart {r : Disk × Option Ptr} (h : s.rdsbufalloc = some r) :
    s.Apart r.1 ∧ r.1.comm = s.comm := by
  unfold Disk.rdsbufalloc at h
  split at h
  · cases h
    exact ⟨⟨rfl, rfl⟩, rfl⟩
  · obtain ⟨b, -, rfl⟩ := Option.map_eq_some_iff.mp h
    split <;> exact ⟨⟨rfl, rfl⟩, rfl⟩

theorem send_apart {m : Msg} : s.Apart (s.send pid m) := by
  unfold Disk.send
  split <;> exact ⟨rfl, rfl⟩

theorem take_apart : s.Apart s.take := by
  unfold Disk.take
  simp only
  split
  · exact ⟨rfl, rfl⟩
  · exact ⟨rfl, rfl⟩
  · exact send_apart (s := s.logTaken _)
  · exact ⟨rfl, rfl⟩

theorem rdsprocess_apart (h : s.rdsprocess = some s') : s.Apart s' := by
  unfold Disk.rdsprocess at h
  split at h
  · cases h
    split
    · exact take_apart (s := s.enterReq)
    · exact ⟨rfl, rfl⟩
  · obtain ⟨-, h⟩ := Option.ite_none_right_eq_some.mp h
    cases h
    exact take_apart (s := s.resumeReq)
  · cases h
    exact ⟨rfl, rfl⟩
  · cases h
    exact send_apart
  · obtain ⟨q, -, rfl⟩ := Option.map_eq_some_iff.mp h
    split
    · exact ⟨rfl, rfl⟩
    · exact send_apart (s := s.setNode _ _)
  · cases h
    exact ⟨rfl, rfl⟩
  · cases h
    exact ⟨rfl, rfl⟩
  · cases h
    exact ⟨rfl, rfl⟩

theorem emptyCache_apart {n : Nat} {b : Ptr} (h : Disk.emptyCache n b s = some s') :
    s.Apart s' ∧ s'.comm = s.comm := by
  induction n generalizing b s with
  | zero => cases h
  | succ n ih =>
      unfold Disk.emptyCache at h
      split at h
      · cases h
        exact ⟨⟨rfl, rfl⟩, rfl⟩
      · exact ih (s := ((s.unlink b).release b).setNode b _) h

theorem rdsclose_apart (h : s.rdsclose = some s') : s.Apart s' ∧ s'.comm = s.comm := by
  unfold Disk.rdsclose at h
  split at h
  · obtain ⟨t, ht, rfl⟩ := Option.map_eq_some_iff.mp h
    have hempty := emptyCache_apart ht
    exact hempty
  · cases h
    exact ⟨⟨rfl, rfl⟩, rfl⟩

theorem reserve_apart : s.Apart s.reserve ∧ s.reserve.comm = s.comm := by
  unfold Disk.reserve
  split <;> exact ⟨⟨rfl, rfl⟩, rfl⟩

theorem Disk.Apart.unsynced (h : s.Apart s') (hu : s.Unsynced) : s'.Unsynced := by
  unfold Disk.Unsynced
  rw [h.1, h.2]
  exact hu

/-- A step of one process, which leaves {lit}`rdsprocess` where it is, and asks for nothing to
be synchronized unless its label says so. -/
def Disk.Moves (s s' : Disk) (pid : Int) (plain : Prop) : Prop :=
  (∀ p, p ≠ pid → s'.phase p = s.phase p) ∧ s'.comm = s.comm ∧
    (plain → s.Unsynced → s'.Unsynced)

theorem Disk.Apart.moves {plain : Prop} (h : s.Apart s') (hcomm : s'.comm = s.comm) :
    s.Moves s' pid plain :=
  ⟨fun p _ => congrFun h.1 p, hcomm, fun _ => h.unsynced⟩

/-- The process goes to another phase, and may have asked for something. -/
theorem moves_of_upd {plain : Prop} {ph : Phase} {l : List Request}
    (hphase : s'.phase = upd s.phase pid ph) (hasked : s'.log.asked = s.log.asked ++ l)
    (hcomm : s'.comm = s.comm) (hph : plain → ph ≠ .allocSync)
    (hl : plain → ∀ r ∈ l, r.op ≠ .sync) : s.Moves s' pid plain := by
  refine ⟨fun p hp => ?_, hcomm, fun hplain hu => ⟨fun p => ?_, fun r hr => ?_⟩⟩
  · rw [hphase, upd_of_ne hp]
  · rw [hphase]
    by_cases heq : p = pid
    · rw [heq, upd_self]
      exact hph hplain
    · rw [upd_of_ne heq]
      exact hu.1 p
  · rw [hasked] at hr
    rcases List.mem_append.mp hr with hr | hr
    · exact hu.2 r hr
    · exact hl hplain r hr

/-- What a process moves, it moves after a step in which nobody moved. -/
theorem Disk.Apart.then_moves {t : Disk} {plain : Prop} (h : s.Apart t) (hcomm : t.comm = s.comm)
    (hm : t.Moves s' pid plain) : s.Moves s' pid plain := by
  refine ⟨fun p hp => ?_, hm.2.1.trans hcomm, fun hplain hu => hm.2.2 hplain (h.unsynced hu)⟩
  rw [hm.1 p hp, h.1]

/-- A step that moves a process whatever the label says does so in particular here. -/
theorem Disk.Moves.mono {plain plain' : Prop} (h : s.Moves s' pid plain) (himp : plain' → plain) :
    s.Moves s' pid plain' :=
  ⟨h.1, h.2.1, fun hplain => h.2.2 (himp hplain)⟩

theorem goOn_moves {ph : Phase} (h : s.goOn pid ph = some s') :
    s.Moves s' pid (ph ≠ .allocSync) := by
  have hthen : ∀ k : Disk → Ptr → Disk,
      (∀ (t : Disk) (b : Ptr), t.Moves (k t b) pid (ph ≠ .allocSync)) →
      s.allocThen k = some s' → s.Moves s' pid (ph ≠ .allocSync) := by
    intro k hk hs
    obtain ⟨r, hr, hs⟩ := Option.map_eq_some_iff.mp hs
    obtain ⟨hapart, hcomm⟩ := rdsbufalloc_apart hr
    rw [← hs]
    split
    · exact hapart.then_moves hcomm (hk _ _)
    · have hpanic : s.Moves r.1 pid (ph ≠ .allocSync) := hapart.moves hcomm
      exact hpanic
  cases ph with
  | allocRead blk =>
      exact hthen (fun t b => t.putRead pid blk b)
        (fun t b => moves_of_upd rfl rfl rfl nofun fun _ r hr => by cases hr with
          | head => exact nofun
          | tail _ hr => cases hr) h
  | allocWrite blk buff =>
      exact hthen (fun t b => t.putWrite pid blk buff b)
        (fun t b => moves_of_upd rfl rfl rfl nofun fun _ r hr => by cases hr with
          | head => exact nofun
          | tail _ hr => cases hr) h
  | allocSync =>
      exact hthen (fun t b => t.putSync pid b)
        (fun t b => moves_of_upd rfl rfl rfl nofun fun hne _ _ => absurd rfl hne) h
  | idle => cases h
  | receiving blk => cases h
  | syncing => cases h
  | deleting => cases h

theorem waitAvail_moves {ph : Phase} (h : s.waitAvail pid ph = some s') :
    s.Moves s' pid (ph ≠ .allocSync) := by
  unfold Disk.waitAvail at h
  simp only at h
  split at h
  · exact goOn_moves (s := { s with availsem := s.availsem.enter pid }) h
  · cases h
    exact moves_of_upd rfl (List.append_nil _).symm rfl id fun _ r hr => by cases hr

theorem putWrite_moves {blk : UInt32} {buff : Block} {b : Ptr} {plain : Prop} :
    s.Moves (s.putWrite pid blk buff b) pid plain :=
  moves_of_upd rfl rfl rfl (fun _ => nofun) fun _ r hr => by cases hr with
    | head => exact nofun
    | tail _ hr => cases hr

theorem setPhase_moves {ph : Phase} {plain : Prop} (hph : ph ≠ .allocSync) :
    s.Moves (s.setPhase pid ph) pid plain :=
  moves_of_upd rfl (List.append_nil _).symm rfl (fun _ => hph) fun _ r hr => by cases hr

theorem rdsread_moves {blk : UInt32} {plain : Prop} (h : s.rdsread pid blk = some s') :
    s.Moves s' pid plain := by
  have hapart : s.Apart s := ⟨rfl, rfl⟩
  unfold Disk.rdsread at h
  split at h
  · cases h
    exact hapart.moves rfl
  · obtain ⟨data, -, h⟩ := Option.bind_eq_some_iff.mp h
    cases data with
    | some data =>
        cases h
        exact hapart.moves rfl
    | none =>
        exact (waitAvail_moves h).mono fun _ => nofun

theorem rdswrite_moves {blk : UInt32} {buff : Block} {plain : Prop}
    (h : s.rdswrite pid blk buff = some s') : s.Moves s' pid plain := by
  have hapart : s.Apart s := ⟨rfl, rfl⟩
  unfold Disk.rdswrite at h
  split at h
  · cases h
    exact hapart.moves rfl
  · obtain ⟨b, -, h⟩ := Option.bind_eq_some_iff.mp h
    split at h
    · cases h
      exact hapart.moves rfl
    · obtain ⟨c, -, h⟩ := Option.bind_eq_some_iff.mp h
      split at h
      · cases h
        obtain ⟨hreserve, hcomm⟩ := reserve_apart (s := s.unlink c)
        exact hreserve.then_moves hcomm putWrite_moves
      · exact (waitAvail_moves h).mono fun _ => nofun

theorem rdsreadWake_moves {blk : UInt32} {b : Ptr} {plain : Prop}
    (h : s.rdsreadWake pid blk b = some s') : s.Moves s' pid plain := by
  have htake : s.Moves (s.takeBlock pid b) pid plain := setPhase_moves nofun
  unfold Disk.rdsreadWake at h
  simp only at h
  split at h
  · obtain ⟨c, -, rfl⟩ := Option.map_eq_some_iff.mp h
    split <;> exact htake
  · cases h
    exact htake

theorem deleted_moves {reply : Option (UInt32 → Block)} {plain : Prop}
    (h : s.deleted pid reply = some s') : s.Moves s' pid plain := by
  have hidle : s.Moves (s.setPhase pid .idle) pid plain := setPhase_moves nofun
  cases reply with
  | none =>
      cases h
      exact hidle
  | some server =>
      have hclose := rdsclose_apart (s := { s.setPhase pid .idle with server := server }) h
      have hphase : s'.phase = upd s.phase pid .idle := hclose.1.1
      have hasked : s'.log.asked = s.log.asked := hclose.1.2
      exact moves_of_upd hphase (hasked.trans (List.append_nil _).symm) hclose.2 (fun _ => nofun)
        fun _ r hr => by cases hr

/-- A step moves the process that makes it, and no other. -/
theorem step_moves {l : Label} (h : s.step l = some s') :
    l = .comm ∧ s.Apart s' ∨
    ∃ pid, l.pid = some pid ∧ s.Moves s' pid (l ≠ .sync pid ∧ s.phase pid ≠ .allocSync) := by
  unfold Disk.step at h
  obtain ⟨-, h⟩ := Option.ite_none_left_eq_some.mp h
  cases l with
  | read pid blk =>
      simp only at h
      split at h
      · exact Or.inr ⟨pid, rfl, rdsread_moves h⟩
      · cases h
  | write pid blk buff =>
      simp only at h
      split at h
      · exact Or.inr ⟨pid, rfl, rdswrite_moves h⟩
      · cases h
  | sync pid =>
      simp only at h
      split at h
      · unfold Disk.rdscontrolSync at h
        refine Or.inr ⟨pid, rfl, ?_⟩
        split at h
        · cases h
          exact ⟨fun _ _ => rfl, rfl, fun hne => absurd rfl hne.1⟩
        · exact (waitAvail_moves h).mono fun hne => absurd rfl hne.1
      · cases h
  | delete pid =>
      simp only at h
      split at h
      · cases h
        unfold Disk.rdscontrolDel
        refine Or.inr ⟨pid, rfl, ?_⟩
        split
        · exact ⟨fun _ _ => rfl, rfl, fun _ hu => hu⟩
        · exact setPhase_moves nofun
      · cases h
  | deleted pid reply =>
      simp only at h
      split at h
      · exact Or.inr ⟨pid, rfl, deleted_moves h⟩
      · cases h
  | alloc pid =>
      obtain ⟨-, h⟩ := Option.ite_none_right_eq_some.mp h
      have hmoves := goOn_moves (s := { s with availsem := s.availsem.resume pid }) h
      have hmoves' : s.Moves s' pid (s.phase pid ≠ .allocSync) :=
        hmoves
      exact Or.inr ⟨pid, rfl, hmoves'.mono And.right⟩
  | receive pid =>
      simp only at h
      split at h
      · exact Or.inr ⟨pid, rfl, rdsreadWake_moves h⟩
      · cases h
        exact Or.inr ⟨pid, rfl, setPhase_moves (s := s) nofun⟩
      · cases h
  | comm => exact Or.inl ⟨rfl, rdsprocess_apart h⟩

theorem step_phase {l : Label} (h : s.step l = some s') (hp : l.pid ≠ some p) :
    s'.phase p = s.phase p := by
  rcases step_moves h with ⟨-, hapart⟩ | ⟨pid, hpid, hmoves⟩
  · exact congrFun hapart.1 p
  · refine hmoves.1 p ?_
    rintro rfl
    exact hp hpid

/-- {lit}`rdsprocess` goes on by steps of its own. -/
theorem step_comm {l : Label} (h : s.step l = some s') (hl : l ≠ .comm) : s'.comm = s.comm := by
  rcases step_moves h with ⟨heq, -⟩ | ⟨pid, -, hmoves⟩
  · exact absurd heq hl
  · exact hmoves.2.1

/-- Nobody synchronizes the disk by a step that is no request for it. -/
theorem step_unsynced {l : Label} (h : s.step l = some s') (hl : ∀ pid, l ≠ .sync pid)
    (hu : s.Unsynced) : s'.Unsynced := by
  rcases step_moves h with ⟨-, hapart⟩ | ⟨pid, -, hmoves⟩
  · exact hapart.unsynced hu
  · exact hmoves.2.2 ⟨hl pid, hu.1 pid⟩ hu

end Frame

/-!
## Orderly runs
-/

theorem Sound.init {A : Prop} {server : UInt32 → Block} {msgBlk : UInt32} :
    Sound A 0 { Disk.init server with msgBlk := msgBlk } [] [] buffers [] where
  shape :=
    { family :=
        { seg := by rintro q (rfl | rfl) <;> exact ⟨rfl, rfl⟩
          node := by rintro q x (rfl | rfl) hx <;> cases hx
          nodup := by rintro q (rfl | rfl) <;> exact List.nodup_nil
          disjoint := by rintro q r x (rfl | rfl) _ hx <;> cases hx }
      chain := by
        refine Chain.of_getElem rfl fun i hi => ?_
        have hlen : buffers.length = RD_BUFFS := by simp [buffers]
        have hget : buffers[i] = .buf i := by simp [buffers]
        rw [hget]
        change (if i + 1 < RD_BUFFS then Ptr.buf (i + 1) else .null) = _
        by_cases hlast : i + 1 < RD_BUFFS
        · simp [buffers, hlast]
        · simp [buffers, hlast]
      perm := by simp }
  served :=
    { current := trivial
      requested := fun _ hb => by cases hb
      distinct := fun _ hb => by cases hb
      answered := fun _ hb => by cases hb
      told := fun _ _ _ hp => by cases hp
      single := fun _ _ _ _ _ hp => by cases hp
      claimed := fun _ hb => by cases hb }
  orders :=
    { pending := rfl
      logged := rfl
      waiting := rfl }
  available := fun _ => by
    have hlen : buffers.length = RD_BUFFS := by simp [buffers]
    rw [hlen]
    exact Turnstile.units_idle (α := Int) (n := RD_BUFFS)
  inside := ⟨List.nodup_nil, fun _ hp => by cases hp⟩

/-- The invariant holds in every state of a run whose steps are orderly, with the count of
the available semaphore if they are affordable. -/
theorem Sound.of_reach {A : Prop} {env : Disk → Label → Prop} {s : Disk}
    (h : Runs.Reach Disk.step env Disk.Init s)
    (henv : ∀ s l, env s l → Orderly s l ∧ (A → Affordable s l)) :
    (A → s.panicked = false) ∧ ∃ reqs cached free, Sound A 0 s reqs cached free [] := by
  refine h.invariant (I := fun s => (A → s.panicked = false) ∧
    ∃ reqs cached free, Sound A 0 s reqs cached free []) ?_ ?_
  · rintro _ ⟨server, msgBlk, rfl⟩
    exact ⟨fun _ => rfl, _, _, _, Sound.init⟩
  · rintro s l s' - ⟨hpan, reqs, cached, free, hI⟩ hl hs
    obtain ⟨horderly, hsafe⟩ := henv s l hl
    obtain ⟨hpan', reqs', cached', free', -, hI'⟩ := hI.step horderly hsafe hs
    exact ⟨fun hA => (hpan' hA).trans (hpan hA), reqs', cached', free', hI'⟩

end Rds
end BbbXinu
