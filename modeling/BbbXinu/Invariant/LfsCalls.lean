import BbbXinu.Invariant.LfsSystem

/-!
# The calls on an open file, run without interruption

What {lit}`lfsetup` and each call on an open device do to a sound file system that
they have for themselves, and what they return.  A call that stores bytes stops
the system exactly when the files would no longer fit on the disk.
-/

namespace BbbXinu
namespace Lfs

open Layouts Prog

/-!
## Mutexes
-/

/-- The mutex of a file has been taken. -/
def lock (d : Fin Nlfl) (s : Lfs) : Lfs := s.setBlk d fun b => { b with lfmutex := b.lfmutex - 1 }

def unlock (d : Fin Nlfl) (s : Lfs) : Lfs := s.setBlk d fun b => { b with lfmutex := b.lfmutex + 1 }

section Mutexes

variable {α : Type} {s : Lfs} {d : Fin Nlfl} {f : Unit → Prog Lfs α}

theorem run_waitFile (h : (s.lfltab d).lfmutex = 1) :
    run (waitFile d >>= f) s = run (f ()) (lock d s) := by
  change (if decide (0 < (s.lfltab d).lfmutex) = true then run (f ()) (lock d s) else none) = _
  rw [if_pos (by simp [h])]

theorem run_waitMutex (h : s.lfMutex = 1) :
    run (waitMutex >>= f) s = run (f ()) { s with lfMutex := 0 } := by
  change (if decide (0 < s.lfMutex) = true then run (f ()) { s with lfMutex := s.lfMutex - 1 }
    else none) = _
  rw [if_pos (by simp [h]), h]

theorem lock_lfltab : (lock d s).lfltab d = { s.lfltab d with lfmutex := (s.lfltab d).lfmutex - 1 } :=
  lfltab_setBlk

theorem unlock_lock (h : (s.lfltab d).lfmutex = 1) : unlock d (lock d s) = s := by
  have hblk : { s.lfltab d with lfmutex := (s.lfltab d).lfmutex - 1 + 1 } = s.lfltab d := by
    rw [show (s.lfltab d).lfmutex - 1 + 1 = (s.lfltab d).lfmutex by omega]
  have htab : upd (upd s.lfltab d { s.lfltab d with lfmutex := (s.lfltab d).lfmutex - 1 }) d
      { s.lfltab d with lfmutex := (s.lfltab d).lfmutex - 1 + 1 } = s.lfltab := by
    rw [upd_upd, hblk]
    exact upd_eq_self rfl
  unfold unlock lock setBlk
  simp only [upd_self]
  rw [htab]

/-- A call that finds its device closed, or its arguments bad, does nothing. -/
theorem run_refuse (h : (s.lfltab d).lfmutex = 1) {r : Int} :
    run (do signalFile d; return r : Prog Lfs Int) (lock d s) = some (s, r) := by
  change some (unlock d (lock d s), r) = _
  rw [unlock_lock h]

end Mutexes

/-!
## Rules for a process that is alone
-/

/-- Nobody else does anything, and no wait is in vain. -/
def alone (geo : Geometry) (d : Fin Nlfl) (e : Fin LF_NUM_DIR_ENT) (ownI ownD : Set UInt32)
    (stops : Prop) : Rules Lfs Unit where
  rely _ s t := t = s
  guar _ s t := Within geo d e ownI ownD s t
  mark g _ _ := g
  stops := stops
  waits := False
  rely_refl _ _ := rfl
  rely_trans _ _ _ _ h h' := h'.trans h
  guar_refl _ s := Within.refl s
  mark_refl _ _ := rfl

theorem alone_inside {geo : Geometry} {d : Fin Nlfl} {e : Fin LF_NUM_DIR_ENT}
    {ownI ownD : Set UInt32} {stops : Prop} :
    Inside (alone geo d e ownI ownD stops) () geo d e ownI ownD where
  rely s s' h := by
    have heq : s' = s := h
    rw [heq]
  guar _ _ h := h
  mark _ _ _ := rfl

/-- A program that is sure of its result when it is alone has it, or stops the system. -/
theorem run_alone {α : Type} {geo : Geometry} {d : Fin Nlfl} {e : Fin LF_NUM_DIR_ENT}
    {ownI ownD : Set UInt32} {stops : Prop} {p : Prog Lfs α} {s : Lfs} {Q : α → Lfs → Prop}
    (h : Sure (alone geo d e ownI ownD stops) (fun a _ s => Q a s) p () s) :
    (∃ s' a, run p s = some (s', a) ∧ Q a s' ∧ Within geo d e ownI ownD s s') ∨
      (run p s = none ∧ stops) := by
  cases hrun : run p s with
  | none =>
      right
      rcases h.returns (fun hw => hw) with hstop | ⟨s', a, hsome⟩
      · exact ⟨rfl, hstop⟩
      · rw [hrun] at hsome
        cases hsome
  | some t =>
      left
      have hof := h.of_run (show run p s = some (t.1, t.2) from hrun) (G := Within geo d e ownI ownD)
        (fun _ _ _ hg => hg) Within.refl fun _ _ _ h1 h2 => h1.trans h2
      rcases hof with ⟨⟨_, hQ⟩, hw⟩
      exact ⟨t.1, t.2, rfl, hQ, hw⟩

/-!
## Setting up
-/

section Setup

variable {geo : Geometry} {s : Lfs} {C : Catalog} {f : FileSys} {d : Fin Nlfl} {i pos : Nat}
  {stops : Prop}

/-- What {lit}`lfsetup` does for a call that has taken the mutex of its file. -/
structure SetUp (geo : Geometry) (s : Lfs) (C : Catalog) (f : FileSys) (d : Fin Nlfl)
    (i pos : Nat) (s' : Lfs) (il dl ibs dbs : List UInt32) : Prop where
  touch : Touch geo d (s.lfltab d).lfdirptr (C.ownI (s.lfltab d).lfdirptr)
    (C.ownD (s.lfltab d).lfdirptr) s s'
  mutex : s'.lfMutex = 1
  fmutex : (s'.lfltab d).lfmutex = 0
  shares : Shares geo (C.ownI (s.lfltab d).lfdirptr) (C.ownD (s.lfltab d).lfdirptr) il dl ibs dbs
  holds : Holds (s'.view d (s.lfltab d).lfdirptr) il dl ibs dbs (f.content i)
  sized : Sized ibs dbs (max (f.content i).length (pos + 1))
  here : dbs[pos / 512]? = some (s'.lfltab d).lfdnum
  lfpos : (s'.lfltab d).lfpos = (s.lfltab d).lfpos
  lfbyte : (s'.lfltab d).lfbyte = pos % 512
  ptr : (s'.lfltab d).lfdirptr = (s.lfltab d).lfdirptr

theorem Sound.run_lfsetup (h : Sound geo s C f) (hd : f.opens d = some (i, pos))
    (hstopI : C.il = [] → (C.ibs (s.lfltab d).lfdirptr).length ≤ pos / 8192 → stops)
    (hstopD : C.dl = [] → (C.dbs (s.lfltab d).lfdirptr).length ≤ pos / 512 → stops) :
    (∃ s' il dl ibs dbs, run (lfsetup d) (lock d s) = some (s', OK) ∧
      SetUp geo s C f d i pos s' il dl ibs dbs) ∨
    (run (lfsetup d) (lock d s) = none ∧ stops) := by
  have hlive := h.live d i pos hd
  generalize he : (s.lfltab d).lfdirptr = e at *
  have hi : e.val = i := he ▸ hlive.entry
  generalize hs₁ : ({ lock d s with lfMutex := 0 } : Lfs) = s₁
  have hblk₁ : s₁.lfltab d = { s.lfltab d with lfmutex := (s.lfltab d).lfmutex - 1 } := by
    rw [← hs₁]
    exact lock_lfltab
  have hholds : Holds (s₁.view d e) C.il C.dl (C.ibs e) (C.dbs e) (f.content i) := by
    have hfile := hlive.file
    unfold Lfs.entryOf at hfile
    rw [he] at hfile
    refine { file := ?_, pool := ?_ }
    · change FileOk s₁.disk (s₁.lfDir.lfdFiles e) (s₁.lfltab d) _ _ _
      rw [hblk₁, ← hs₁]
      exact hfile.congrBlk rfl
    · rw [← hs₁]
      exact h.pool
  have hsized : Sized (C.ibs e) (C.dbs e) (f.content i).length := hi ▸ h.sized e
  have hlfpos₁ : (s₁.lfltab d).lfpos = (s.lfltab d).lfpos := by rw [hblk₁]
  have hpos := hlive.lfpos
  have hsure : Sure (alone geo d e (C.ownI e) (C.ownD e) stops)
      (fun _ _ s' => ∃ il dl ibs dbs,
        Ready e (s.lfltab d).lfpos (s'.view d e) il dl ibs dbs (f.content i) ∧
        Shares geo (C.ownI e) (C.ownD e) il dl ibs dbs ∧
        Sized ibs dbs (max (f.content i).length (pos + 1)) ∧
        (s'.lfltab d).lfbyte = pos % 512) (setupBlocks d) () s₁ := by
    rw [← bind_pure_eq (setupBlocks d)]
    apply alone_inside.setupBlocks (h.shares e) hholds (by rw [hblk₁]; exact hlive.used)
      (by rw [hblk₁]; exact he) hsized hlfpos₁ (by rw [hpos]; exact hlive.le)
      (by rw [hpos]; exact hstopI) (by rw [hpos]; exact hstopD)
    intro s' il dl ibs dbs hready hshares hsz hbyte
    rw [hpos] at hsz hbyte
    exact ⟨il, dl, ibs, dbs, hready, hshares, hsz, hbyte⟩
  have hrun : run (lfsetup d) (lock d s) = (run (setupBlocks d) s₁).bind
      fun t => some ({ t.1 with lfMutex := t.1.lfMutex + 1 }, OK) := by
    unfold Lfs.lfsetup
    rw [run_waitMutex (show (lock d s).lfMutex = 1 from h.mutex), hs₁, run_bind]
    rfl
  rw [hrun]
  rcases run_alone hsure with ⟨s', _, hsome, ⟨il, dl, ibs, dbs, hready, hshares, hsz, hbyte⟩, hw⟩ |
    ⟨hnone, hstop⟩
  · left
    have hfixed := hw.fixed
    simp only [Lfs.fixed, Prod.mk.injEq] at hfixed
    have ht : Touch geo d e (C.ownI e) (C.ownD e) s { s' with lfMutex := s'.lfMutex + 1 } := by
      have ht₁ : Touch geo d e (C.ownI e) (C.ownD e) s s₁ := by
        rw [← hs₁]
        exact (touch_setBlk rfl).trans touch_mutex
      exact ht₁.trans (hw.touch.trans touch_mutex)
    refine ⟨{ s' with lfMutex := s'.lfMutex + 1 }, il, dl, ibs, dbs, by rw [hsome]; rfl, ?_⟩
    rw [← he] at *
    exact { touch := ht
            mutex := by
              change s'.lfMutex + 1 = 1
              rw [hw.mutex, ← hs₁]
            fmutex := by
              change (s'.lfltab d).lfmutex = 0
              rw [hfixed.2.2.1, hblk₁, h.fmutex d]
            shares := hshares
            holds := hready.holds
            sized := hsz
            here := by
              have := hready.here
              rw [hpos] at this
              exact this
            lfpos := hready.lfpos
            lfbyte := hbyte
            ptr := hready.entry }
  · right
    rw [hnone]
    exact ⟨rfl, hstop⟩

/-- Before a byte is read or stored: the block of the position is in memory, or brought
there. -/
theorem Sound.prepare (h : Sound geo s C f) (hd : f.opens d = some (i, pos))
    (hstopI : C.il = [] → (C.ibs (s.lfltab d).lfdirptr).length ≤ pos / 8192 → stops)
    (hstopD : C.dl = [] → (C.dbs (s.lfltab d).lfdirptr).length ≤ pos / 512 → stops)
    (k : Unit → Prog Lfs Int) :
    (∃ s' il dl ibs dbs,
      run (when (decide (LF_BLKSIZ ≤ ((lock d s).lfltab d).lfbyte))
        (do let _ ← lfsetup d; return ()) >>= k) (lock d s) = run (k ()) s' ∧
      SetUp geo s C f d i pos s' il dl ibs dbs) ∨
    (run (when (decide (LF_BLKSIZ ≤ ((lock d s).lfltab d).lfbyte))
        (do let _ ← lfsetup d; return ()) >>= k) (lock d s) = none ∧ stops) := by
  have hlive := h.live d i pos hd
  have hbyte : ((lock d s).lfltab d).lfbyte = (s.lfltab d).lfbyte := by rw [lock_lfltab]
  rw [hbyte]
  by_cases hin : LF_BLKSIZ ≤ (s.lfltab d).lfbyte
  · have hrun : run (when (decide (LF_BLKSIZ ≤ (s.lfltab d).lfbyte))
        (do let _ ← lfsetup d; return ()) >>= k) (lock d s)
        = (run (lfsetup d) (lock d s)).bind fun t => run (k ()) t.1 := by
      unfold Prog.when
      rw [if_pos (decide_eq_true hin), bind_assoc_eq, run_bind]
      rfl
    rw [hrun]
    rcases h.run_lfsetup hd hstopI hstopD with ⟨s', il, dl, ibs, dbs, hsome, hset⟩ | ⟨hnone, hstop⟩
    · left
      exact ⟨s', il, dl, ibs, dbs, by rw [hsome]; rfl, hset⟩
    · right
      rw [hnone]
      exact ⟨rfl, hstop⟩
  · left
    have hfalse : decide (LF_BLKSIZ ≤ (s.lfltab d).lfbyte) = false := decide_eq_false hin
    rw [hfalse]
    have hplace := hlive.lfbyte (by omega)
    have hsz : Sized (C.ibs (s.lfltab d).lfdirptr) (C.dbs (s.lfltab d).lfdirptr)
        (f.content i).length := hlive.entry ▸ h.sized (s.lfltab d).lfdirptr
    have hlt := (List.getElem?_eq_some_iff.mp hplace.1).1
    have h1 := hsz.data
    have h2 := hsz.index
    have hle := hlive.le
    refine ⟨lock d s, C.il, C.dl, C.ibs (s.lfltab d).lfdirptr, C.dbs (s.lfltab d).lfdirptr,
      rfl, ?_⟩
    exact { touch := touch_setBlk rfl
            mutex := h.mutex
            fmutex := by rw [lock_lfltab, h.fmutex d]
            shares := h.shares _
            holds := { file := by
                        change FileOk s.disk (s.lfDir.lfdFiles _) ((lock d s).lfltab d) _ _ _
                        rw [lock_lfltab]
                        exact hlive.file.congrBlk rfl
                       pool := h.pool }
            sized := { data := by omega
                       index := by omega }
            here := by rw [lock_lfltab]; exact hplace.1
            lfpos := by rw [lock_lfltab]
            lfbyte := by rw [lock_lfltab]; exact hplace.2
            ptr := by rw [lock_lfltab] }

end Setup

/-!
## The calls
-/

/-- All blocks that the files need are there. -/
def Fits (geo : Geometry) (f : FileSys) : Prop :=
  f.dataBlocks ≤ (dataIds geo).length ∧ f.indexBlocks ≤ (indexIds geo).length

/-- What no call on an open file changes. -/
structure Same (s s' : Lfs) : Prop where
  present : s'.lfDirpresent = s.lfDirpresent
  dev : ∀ d, (s'.lfltab d).lfdev = (s.lfltab d).lfdev

/-- A call returns the given result and leaves the given files, or stops the system because
they do not fit on the disk. -/
def Serves {α : Type} (geo : Geometry) (s : Lfs) (p : Prog Lfs α) (r : α) (f' : FileSys) : Prop :=
  (∃ s' C', run p s = some (s', r) ∧ Sound geo s' C' f' ∧ Same s s') ∨
    (run p s = none ∧ ¬Fits geo f')

section Calls

variable {geo : Geometry} {s s' : Lfs} {C : Catalog} {f : FileSys} {d : Fin Nlfl} {i pos : Nat}
  {e : Fin LF_NUM_DIR_ENT} {ownI ownD : Set UInt32}

theorem Touch.same (h : Touch geo d e ownI ownD s s') : Same s s' where
  present := h.present
  dev d' := by
    by_cases hd : d' = d
    · have hkept := h.kept
      simp only [Lfs.kept, Prod.mk.injEq] at hkept
      rw [hd, hkept.2.1]
    · rw [h.blks d' hd]

theorem Same.refl (s : Lfs) : Same s s where
  present := rfl
  dev _ := rfl

theorem entryOf_lock : (lock d s).entryOf d = s.entryOf d := by
  unfold Lfs.entryOf
  rw [lock_lfltab]
  rfl

theorem setContent_self (h : i < f.files.length) : f.setContent i (f.content i) = f := by
  cases f with
  | mk files opens =>
      unfold FileSys.setContent FileSys.content
      congr 1
      apply List.ext_getElem?
      intro j
      rw [List.getElem?_modify]
      by_cases hj : i = j
      · subst hj
        have hlt : i < files.length := h
        simp [hlt]
      · simp [hj]

/-- A call on a device on which no file is open. -/
theorem Sound.refused (h : Sound geo s C f) {p : Prog Lfs Int} {r : Int}
    (hrun : run p s = some (s, r)) : Serves geo s p r f :=
  Or.inl ⟨s, C, hrun, h, Same.refl s⟩

/-- Every call on an open file takes the mutex and looks whether the device is in use. -/
theorem run_closed (hm : (s.lfltab d).lfmutex = 1) (hfree : (s.lfltab d).lfstate = .free)
    {body : Lfs → Prog Lfs Int} :
    run (do
      waitFile d
      let s ← get
      if (s.lfltab d).lfstate ≠ .used then do
        signalFile d
        return SYSERR
      else body s) s = some (s, SYSERR) := by
  have hstate : ((lock d s).lfltab d).lfstate ≠ .used := by
    rw [lock_lfltab, hfree]
    simp
  rw [run_waitFile hm]
  change run (if ((lock d s).lfltab d).lfstate ≠ .used then _ else body (lock d s)) (lock d s) = _
  rw [if_pos hstate, run_refuse hm]

theorem Sound.run_open (h : Sound geo s C f) (hd : f.opens d = some (i, pos))
    {body : Lfs → Prog Lfs Int} :
    run (do
      waitFile d
      let s ← get
      if (s.lfltab d).lfstate ≠ .used then do
        signalFile d
        return SYSERR
      else body s) s = run (body (lock d s)) (lock d s) := by
  have hstate : ¬((lock d s).lfltab d).lfstate ≠ .used := by
    rw [lock_lfltab]
    exact not_not.mpr (h.live d i pos hd).used
  rw [run_waitFile (h.fmutex d)]
  change run (if ((lock d s).lfltab d).lfstate ≠ .used then _ else body (lock d s)) (lock d s) = _
  rw [if_neg hstate]

/-- A byte has been read or stored at the position, which goes on by one. -/
theorem SetUp.finish {s₂ : Lfs} {il dl ibs dbs : List UInt32}
    (hset : SetUp geo s C f d i pos s₂ il dl ibs dbs) (h : Sound geo s C f)
    (hd : f.opens d = some (i, pos)) (bytes : List UInt8)
    (ht : Touch geo d (s.lfltab d).lfdirptr (C.ownI (s.lfltab d).lfdirptr)
      (C.ownD (s.lfltab d).lfdirptr) s₂ s') (hmutex : s'.lfMutex = s₂.lfMutex)
    (hholds : Holds (s'.view d (s.lfltab d).lfdirptr) il dl ibs dbs bytes)
    (hlen : bytes.length = max (f.content i).length (pos + 1))
    (hfm : (s'.lfltab d).lfmutex = (s₂.lfltab d).lfmutex + 1)
    (hpos : (s'.lfltab d).lfpos = (s₂.lfltab d).lfpos + 1)
    (hbyte : (s'.lfltab d).lfbyte = (s₂.lfltab d).lfbyte + 1)
    (hdnum : (s'.lfltab d).lfdnum = (s₂.lfltab d).lfdnum) :
    ∃ C', Sound geo s' C' ((f.setContent i bytes).setOpen d (some (i, pos + 1))) ∧ Same s s' := by
  have hlive := h.live d i pos hd
  have hlt := (List.getElem?_eq_some_iff.mp hset.here).1
  have hdlen := hset.shares.data_length_lt
  have hnext : (s'.lfltab d).lfpos.toNat = pos + 1 := by
    rw [hpos, hset.lfpos, UInt32.toNat_add, hlive.lfpos]
    change (pos + 1) % 4294967296 = _
    omega
  refine ⟨C.change (s.lfltab d).lfdirptr il dl ibs dbs, ?_, (hset.touch.trans ht).same⟩
  apply h.update hd rfl bytes (pos + 1) (hset.touch.trans ht) (hmutex.trans hset.mutex)
    (by rw [hfm, hset.fmutex]) hset.shares hholds (by rw [hlen]; exact hset.sized) hnext
    (by rw [hlen]; omega)
  intro hin
  rw [hbyte, hset.lfbyte] at hin
  unfold LF_BLKSIZ at hin
  rw [hbyte, hdnum, hset.lfbyte]
  refine ⟨?_, by omega⟩
  rw [show (pos + 1) / 512 = pos / 512 by omega]
  exact hset.here

theorem Sound.lflgetc (h : Sound geo s C f) (d : Fin Nlfl) :
    Serves geo s (lflgetc d) (f.getc d).2 (f.getc d).1 := by
  have hm := h.fmutex d
  unfold Lfs.lflgetc
  cases hd : f.opens d with
  | none =>
      have hspec : f.getc d = (f, SYSERR) := by
        unfold FileSys.getc
        rw [hd]
      rw [hspec]
      exact h.refused (run_closed hm (h.free d hd))
  | some o =>
      rcases o with ⟨i, pos⟩
      have hlive := h.live d i pos hd
      have hcond : ((lock d s).entryOf d).ldSize ≤ ((lock d s).lfltab d).lfpos ↔
          (f.content i).length ≤ pos := by
        rw [entryOf_lock, lock_lfltab, UInt32.le_iff_toNat_le, hlive.file.size, hlive.lfpos]
      cases hbyte : (f.content i)[pos]? with
      | none =>
          have hspec : f.getc d = (f, EOF) := by
            unfold FileSys.getc
            simp only [hd, hbyte]
          rw [hspec]
          apply h.refused
          refine (h.run_open hd).trans ?_
          rw [if_pos (hcond.mpr (List.getElem?_eq_none_iff.mp hbyte)), run_refuse hm]
      | some b =>
          have hlt : pos < (f.content i).length := (List.getElem?_eq_some_iff.mp hbyte).1
          have hspec : f.getc d = (f.setOpen d (some (i, pos + 1)), (b.toNat : Int)) := by
            unfold FileSys.getc
            simp only [hd, hbyte]
          rw [hspec]
          left
          have hsz : Sized (C.ibs (s.lfltab d).lfdirptr) (C.dbs (s.lfltab d).lfdirptr)
              (f.content i).length := hlive.entry ▸ h.sized (s.lfltab d).lfdirptr
          have h1 := hsz.data
          have h2 := hsz.index
          rcases h.prepare hd (fun _ hle => (show False by omega))
            (fun _ hle => (show False by omega))
            (fun _ => do
              let s ← get
              let onebyte := byteAt (s.lfltab d).lfdblock (s.lfltab d).lfbyte
              modify fun s => s.setBlk d fun blk =>
                { blk with lfbyte := blk.lfbyte + 1, lfpos := blk.lfpos + 1 }
              signalFile d
              return onebyte.toNat) with ⟨s₂, il, dl, ibs, dbs, hrun, hset⟩ | ⟨_, hfalse⟩
          · have hb : byteAt (s₂.lfltab d).lfdblock (s₂.lfltab d).lfbyte = b := by
              rw [hset.lfbyte]
              exact hset.holds.file.dataMem pos b hbyte hset.here
            have hlen : (f.content i).length = max (f.content i).length (pos + 1) := by omega
            have ht : Touch geo d (s.lfltab d).lfdirptr (C.ownI (s.lfltab d).lfdirptr)
                (C.ownD (s.lfltab d).lfdirptr) s₂ (unlock d (s₂.setBlk d fun blk =>
                  { blk with lfbyte := blk.lfbyte + 1, lfpos := blk.lfpos + 1 })) :=
              (touch_setBlk rfl).trans (touch_setBlk rfl)
            have hblk : (unlock d (s₂.setBlk d fun blk =>
                { blk with lfbyte := blk.lfbyte + 1, lfpos := blk.lfpos + 1 })).lfltab d
                = { s₂.lfltab d with
                    lfbyte := (s₂.lfltab d).lfbyte + 1, lfpos := (s₂.lfltab d).lfpos + 1,
                    lfmutex := (s₂.lfltab d).lfmutex + 1 } := by
              rw [unlock, lfltab_setBlk, lfltab_setBlk]
            have hfin := hset.finish h hd (f.content i) ht rfl
              { file := by
                  change FileOk s₂.disk (s₂.lfDir.lfdFiles _)
                    ((unlock d (s₂.setBlk d fun blk => _)).lfltab d) _ _ _
                  rw [hblk]
                  exact hset.holds.file.congrBlk rfl
                pool := hset.holds.pool } hlen
              (by rw [hblk]) (by rw [hblk]) (by rw [hblk]) (by rw [hblk])
            rw [setContent_self hlive.lt] at hfin
            rcases hfin with ⟨C', hsound, hsame⟩
            refine ⟨_, C', ?_, hsound, hsame⟩
            refine (h.run_open hd).trans ?_
            rw [if_neg (by rw [hcond]; omega)]
            refine hrun.trans ?_
            rw [← hb]
            rfl
          · exact absurd hfalse id

/-!
### Reading many bytes
-/

theorem setOpen_self {o : Option (Nat × Nat)} (h : f.opens d = o) : f.setOpen d o = f := by
  unfold FileSys.setOpen
  rw [upd_eq_self h]

theorem setOpen_setOpen {o o' : Option (Nat × Nat)} :
    (f.setOpen d o).setOpen d o' = f.setOpen d o' := by
  unfold FileSys.setOpen
  rw [upd_upd]

@[simp] theorem content_setOpen {o : Option (Nat × Nat)} {j : Nat} :
    (f.setOpen d o).content j = f.content j := rfl

@[simp] theorem opens_setOpen {o : Option (Nat × Nat)} : (f.setOpen d o).opens d = o := upd_self

/-- Reading a byte never stops the system. -/
theorem Sound.getc_returns (h : Sound geo s C f) (hfits : Fits geo f) (d : Fin Nlfl) :
    ∃ s' C', run (Lfs.lflgetc d) s = some (s', (f.getc d).2) ∧ Sound geo s' C' (f.getc d).1 ∧
      Same s s' := by
  rcases h.lflgetc d with hs | ⟨_, hno⟩
  · exact hs
  · have hfiles : (f.getc d).1.files = f.files := by
      unfold FileSys.getc
      split
      · rfl
      · split
        · rfl
        · rfl
    unfold Fits FileSys.dataBlocks FileSys.indexBlocks at hno hfits
    rw [hfiles] at hno
    exact absurd hfits hno

theorem Same.trans {t : Lfs} (h : Same s s') (h' : Same s' t) : Same s t where
  present := h'.present.trans h.present
  dev d := (h'.dev d).trans (h.dev d)

/-- What {lit}`lflread` returns for the bytes in the buffer. -/
def readReply (buff : List UInt8) (more : Bool) : Reply :=
  if buff.length = 0 ∧ more then (EOF, buff) else ((buff.length : Int), buff)

/-- The body of the loop of {lit}`lflread`. -/
def readRound (d : Fin Nlfl) (count : Int) (buff : List UInt8) :
    Prog Lfs (List UInt8 ⊕ Reply) :=
  if count ≤ buff.length then return .inr ((buff.length : Int), buff)
  else do
    let nxtbyte ← Lfs.lflgetc d
    if nxtbyte = SYSERR then return .inr (SYSERR, buff)
    else if nxtbyte = EOF then
      if buff.length = 0 then return .inr (EOF, buff)
      else return .inr ((buff.length : Int), buff)
    else return .inl (buff ++ [UInt8.ofNat nxtbyte.toNat])

theorem run_loop {σ α β : Type} {body : β → Prog σ (β ⊕ α)} {n : Nat} {b : β} {t : σ} :
    run (loop body (n + 1) b) t = (run (body b) t).bind fun u =>
      match u.2 with
      | .inl b' => run (loop body n b') u.1
      | .inr a => some (u.1, a) := by
  change run (body b >>= _) t = _
  rw [run_bind]
  congr 1
  funext u
  rcases u with ⟨u, x | x⟩
  · rfl
  · rfl

theorem Sound.run_read (h : Sound geo s C f) (hfits : Fits geo f) (hd : f.opens d = some (i, pos))
    {count : Int} {k : Nat} {buff : List UInt8} (hcount : count = (buff.length + k : Nat)) :
    ∃ s' C', run (loop (readRound d count) (k + 1) buff) s
        = some (s', readReply (buff ++ ((f.content i).drop pos).take k) (decide (0 < k))) ∧
      Sound geo s' C' (f.setOpen d (some (i, pos + (((f.content i).drop pos).take k).length))) ∧
      Same s s' := by
  induction k generalizing s C f pos buff with
  | zero =>
      refine ⟨s, C, ?_, ?_, Same.refl s⟩
      · rw [run_loop]
        unfold readRound
        rw [if_pos (by omega)]
        simp only [List.take_zero, List.append_nil]
        unfold readReply
        simp
        rfl
      · simp only [List.take_zero, List.length_nil, Nat.add_zero]
        rw [setOpen_self hd]
        exact h
  | succ k ih =>
      rcases h.getc_returns hfits d with ⟨s₁, C₁, hrun, hsound, hsame⟩
      have hround : run (readRound d count buff) s = run (do
          let nxtbyte ← Lfs.lflgetc d
          if nxtbyte = SYSERR then return .inr (SYSERR, buff)
          else if nxtbyte = EOF then
            if buff.length = 0 then return .inr (EOF, buff)
            else return .inr ((buff.length : Int), buff)
          else return .inl (buff ++ [UInt8.ofNat nxtbyte.toNat])) s := by
        unfold readRound
        rw [if_neg (by omega)]
      rw [run_loop, hround, run_bind, hrun]
      cases hbyte : (f.content i)[pos]? with
      | none =>
          have hspec : f.getc d = (f, EOF) := by
            unfold FileSys.getc
            simp only [hd, hbyte]
          have hnil : ((f.content i).drop pos).take (k + 1) = [] := by
            rw [List.drop_eq_nil_of_le (List.getElem?_eq_none_iff.mp hbyte)]
            rfl
          rw [hspec] at hsound ⊢
          rw [hnil]
          refine ⟨s₁, C₁, ?_, ?_, hsame⟩
          · rw [List.append_nil]
            by_cases hz : buff.length = 0
            · have hreply : readReply buff (decide (0 < k + 1)) = (EOF, buff) := by
                unfold readReply
                rw [if_pos ⟨hz, by simp⟩]
              rw [hreply]
              change (run (if EOF = SYSERR then _ else if EOF = EOF then
                if buff.length = 0 then _ else _ else _) s₁).bind _ = _
              rw [if_neg (by decide), if_pos rfl, if_pos hz]
              rfl
            · have hreply : readReply buff (decide (0 < k + 1)) = ((buff.length : Int), buff) := by
                unfold readReply
                rw [if_neg (by simp [hz])]
              rw [hreply]
              change (run (if EOF = SYSERR then _ else if EOF = EOF then
                if buff.length = 0 then _ else _ else _) s₁).bind _ = _
              rw [if_neg (by decide), if_pos rfl, if_neg hz]
              rfl
          · rw [List.length_nil, Nat.add_zero, setOpen_self hd]
            exact hsound
      | some b =>
          have hlt : pos < (f.content i).length := (List.getElem?_eq_some_iff.mp hbyte).1
          have hspec : f.getc d = (f.setOpen d (some (i, pos + 1)), (b.toNat : Int)) := by
            unfold FileSys.getc
            simp only [hd, hbyte]
          have hcons : ((f.content i).drop pos).take (k + 1)
              = b :: ((f.content i).drop (pos + 1)).take k := by
            rw [List.drop_eq_getElem_cons hlt, List.take_succ_cons,
              (List.getElem?_eq_some_iff.mp hbyte).2]
          rw [hspec] at hsound ⊢
          have hb : UInt8.ofNat ((b.toNat : Int)).toNat = b := by
            rw [Int.toNat_natCast, UInt8.ofNat_toNat]
          have hcount' : count = ((buff ++ [b]).length + k : Nat) := by
            rw [hcount, List.length_append, List.length_singleton]
            omega
          rcases ih hsound hfits opens_setOpen hcount' with ⟨s₂, C₂, hrun₂, hsound₂, hsame₂⟩
          refine ⟨s₂, C₂, ?_, ?_, hsame.trans hsame₂⟩
          · have hgo : ∀ X Y Z : Prog Lfs (List UInt8 ⊕ Reply), (if (b.toNat : Int) = SYSERR then X
                else if (b.toNat : Int) = EOF then Y else Z) = Z := by
              intro X Y Z
              rw [if_neg (by unfold SYSERR; omega), if_neg (by unfold EOF; omega)]
            change (run (ite ((b.toNat : Int) = SYSERR) _ _) s₁).bind _ = _
            rw [hgo, hb]
            refine hrun₂.trans ?_
            rw [hcons]
            unfold readReply
            simp
          · rw [hcons, List.length_cons]
            rw [setOpen_setOpen] at hsound₂
            change Sound geo s₂ C₂ (f.setOpen d (some (i, pos + 1 +
              (((f.content i).drop (pos + 1)).take k).length))) at hsound₂
            rw [Nat.add_right_comm, Nat.add_assoc] at hsound₂
            exact hsound₂

theorem Sound.lflread (h : Sound geo s C f) (hfits : Fits geo f) (d : Fin Nlfl) (count : Int) :
    Serves geo s (lflread d count) (f.read d count).2 (f.read d count).1 := by
  left
  by_cases hneg : count < 0
  · have hspec : f.read d count = (f, SYSERR, []) := by
      unfold FileSys.read
      rw [if_pos hneg]
    rw [hspec]
    refine ⟨s, C, ?_, h, Same.refl s⟩
    unfold Lfs.lflread
    rw [if_pos hneg]
    rfl
  have hloop : run (Lfs.lflread d count) s =
      run (loop (readRound d count) (count.toNat + 1) []) s := by
    unfold Lfs.lflread
    rw [if_neg hneg]
    rfl
  rw [hloop]
  by_cases hzero : count = 0
  · have hspec : f.read d count = (f, 0, []) := by
      unfold FileSys.read
      rw [if_neg hneg, if_pos hzero]
    rw [hspec, hzero]
    exact ⟨s, C, rfl, h, Same.refl s⟩
  cases hd : f.opens d with
  | none =>
      have hread : f.read d count = (f, SYSERR, []) := by
        unfold FileSys.read
        rw [if_neg hneg, if_neg hzero, hd]
      rcases h.getc_returns hfits d with ⟨s₁, C₁, hrun, hsound, hsame⟩
      have hspec : f.getc d = (f, SYSERR) := by
        unfold FileSys.getc
        rw [hd]
      rw [hspec] at hrun hsound
      rw [hread]
      refine ⟨s₁, C₁, ?_, hsound, hsame⟩
      rw [run_loop]
      unfold readRound
      rw [if_neg (by simp; omega), run_bind, hrun]
      rfl
  | some o =>
      rcases o with ⟨i, pos⟩
      have hcount : count = (([] : List UInt8).length + count.toNat : Nat) := by
        rw [List.length_nil]
        omega
      rcases h.run_read hfits hd hcount with ⟨s₁, C₁, hrun, hsound, hsame⟩
      rw [List.nil_append] at hrun
      refine ⟨s₁, C₁, ?_⟩
      cases hbytes : ((f.content i).drop pos).take count.toNat with
      | nil =>
          have hread : f.read d count = (f, EOF, []) := by
            unfold FileSys.read
            simp only [if_neg hneg, if_neg hzero, hd, hbytes]
          rw [hbytes] at hrun hsound
          rw [List.length_nil, Nat.add_zero, setOpen_self hd] at hsound
          rw [hread, hrun]
          refine ⟨?_, hsound, hsame⟩
          unfold readReply
          rw [if_pos ⟨rfl, by simp; omega⟩]
      | cons b l =>
          have hread : f.read d count = (f.setOpen d (some (i, pos + (l.length + 1))),
              ((l.length + 1 : Nat) : Int), b :: l) := by
            unfold FileSys.read
            simp only [if_neg hneg, if_neg hzero, hd, hbytes]
          rw [hbytes] at hrun hsound
          rw [hread, hrun]
          refine ⟨?_, hsound, hsame⟩
          unfold readReply
          rw [if_neg (by simp)]
          rfl

end Calls

end Lfs
end BbbXinu
