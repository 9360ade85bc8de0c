import BbbXinu.Invariant.LfsStores

/-!
# Seeking, truncating and closing, run without interruption

{lit}`lflseek` moves the position, {lit}`lflcontrol` empties the file, and
{lit}`lflclose` brings everything to the disk and gives the device back.
-/

namespace BbbXinu
namespace Lfs

open Layouts Prog

variable {geo : Geometry} {s s' : Lfs} {C : Catalog} {f : FileSys} {d : Fin Nlfl} {i pos : Nat}

/-!
## Seeking
-/

theorem Sound.lflseek (h : Sound geo s C f) (d : Fin Nlfl) (offset : UInt32) :
    Serves geo s (lflseek d offset) (f.seek d offset.toNat).2 (f.seek d offset.toNat).1 := by
  have hm := h.fmutex d
  unfold Lfs.lflseek
  cases hd : f.opens d with
  | none =>
      have hspec : f.seek d offset.toNat = (f, SYSERR) := by
        unfold FileSys.seek
        rw [hd]
      rw [hspec]
      exact h.refused (run_closed (h.fmutex d) (h.free d hd))
  | some o =>
      rcases o with ⟨i, pos⟩
      have hlive := h.live d i pos hd
      have hcond : ((lock d s).entryOf d).ldSize < offset ↔ (f.content i).length < offset.toNat := by
        rw [entryOf_lock, UInt32.lt_iff_toNat_lt, hlive.file.size]
      by_cases hle : offset.toNat ≤ (f.content i).length
      · have hspec : f.seek d offset.toNat = (f.setOpen d (some (i, offset.toNat)), OK) := by
          unfold FileSys.seek
          simp only [hd, if_pos hle]
        rw [hspec]
        generalize hs' : unlock d ((lock d s).setBlk d fun blk =>
          { blk with lfpos := offset, lfbyte := LF_BLKSIZ }) = s'
        have hblk : s'.lfltab d = { s.lfltab d with lfpos := offset, lfbyte := LF_BLKSIZ } := by
          rw [← hs', unlock, lfltab_setBlk, lfltab_setBlk, lock_lfltab]
          change ({ s.lfltab d with lfmutex := _, lfpos := _, lfbyte := _ } : Lflcblk) = _
          rw [show (s.lfltab d).lfmutex - 1 + 1 = (s.lfltab d).lfmutex by omega]
        have ht : Touch geo d (s.lfltab d).lfdirptr (C.ownI (s.lfltab d).lfdirptr)
            (C.ownD (s.lfltab d).lfdirptr) s s' := by
          rw [← hs']
          exact (touch_setBlk rfl).trans ((touch_setBlk rfl).trans (touch_setBlk rfl))
        have hview : s'.view d (s.lfltab d).lfdirptr
            = { s.view d (s.lfltab d).lfdirptr with blk := s'.lfltab d } := by
          rw [← hs']
          rfl
        have hsz : Sized (C.ibs (s.lfltab d).lfdirptr) (C.dbs (s.lfltab d).lfdirptr)
            (f.content i).length := hlive.entry ▸ h.sized (s.lfltab d).lfdirptr
        have hsound := h.update hd rfl (f.content i) offset.toNat ht (by rw [← hs']; exact h.mutex)
          (by rw [hblk]; exact hm) (h.shares (s.lfltab d).lfdirptr)
          { file := by
              rw [hview, hblk]
              exact hlive.file.congrBlk rfl
            pool := by
              rw [hview]
              exact h.pool } hsz (by rw [hblk]) hle
          (by
            rw [hblk]
            intro hlt
            exact absurd hlt (Nat.lt_irrefl _))
        rw [setContent_self hlive.lt] at hsound
        left
        refine ⟨s', _, ?_, hsound, ht.same⟩
        refine (h.run_open hd).trans ?_
        rw [if_neg (by rw [hcond]; omega), ← hs']
        rfl
      · have hspec : f.seek d offset.toNat = (f, SYSERR) := by
          unfold FileSys.seek
          simp only [hd, if_neg hle]
        rw [hspec]
        apply h.refused
        refine (h.run_open hd).trans ?_
        rw [if_pos (by rw [hcond]; omega), run_refuse hm]

/-!
## Truncating
-/

/-- A file as it is in memory after its mutex and that of the directory have been taken. -/
theorem Sound.locked (h : Sound geo s C f) (hd : f.opens d = some (i, pos)) (n : Nat) :
    Holds (({ lock d s with lfMutex := n } : Lfs).view d (s.lfltab d).lfdirptr) C.il C.dl
      (C.ibs (s.lfltab d).lfdirptr) (C.dbs (s.lfltab d).lfdirptr) (f.content i) where
  file := by
    change FileOk s.disk (s.lfDir.lfdFiles _) ((lock d s).lfltab d) _ _ _
    rw [lock_lfltab]
    exact (h.live d i pos hd).file.congrBlk rfl
  pool := h.pool

/-- What {lit}`lftruncate` leaves for the call that has taken the mutexes. -/
structure Emptied (geo : Geometry) (s : Lfs) (C : Catalog) (d : Fin Nlfl) (s' : Lfs)
    (il dl ibs dbs : List UInt32) : Prop where
  shares : Shares geo (C.ownI (s.lfltab d).lfdirptr) (C.ownD (s.lfltab d).lfdirptr) il dl ibs dbs
  holds : Holds (s'.view d (s.lfltab d).lfdirptr) il dl ibs dbs []
  sized : Sized ibs dbs 0
  lfpos : (s'.lfltab d).lfpos = 0
  lfbyte : LF_BLKSIZ ≤ (s'.lfltab d).lfbyte

theorem Sound.run_lftruncate (h : Sound geo s C f) (hd : f.opens d = some (i, pos)) :
    ∃ s' il dl ibs dbs, run (lftruncate d) { lock d s with lfMutex := 0 } = some (s', OK) ∧
      Emptied geo s C d s' il dl ibs dbs ∧
      Within geo d (s.lfltab d).lfdirptr (C.ownI (s.lfltab d).lfdirptr)
        (C.ownD (s.lfltab d).lfdirptr) { lock d s with lfMutex := 0 } s' := by
  have hlive := h.live d i pos hd
  have hsz : Sized (C.ibs (s.lfltab d).lfdirptr) (C.dbs (s.lfltab d).lfdirptr)
      (f.content i).length := hlive.entry ▸ h.sized (s.lfltab d).lfdirptr
  have hsure : Sure (alone geo d (s.lfltab d).lfdirptr (C.ownI (s.lfltab d).lfdirptr)
      (C.ownD (s.lfltab d).lfdirptr) False)
      (fun r _ s' => r = OK ∧ ∃ il dl ibs dbs, Emptied geo s C d s' il dl ibs dbs)
      (Lfs.lftruncate d) () { lock d s with lfMutex := 0 } := by
    rw [← bind_pure_eq (Lfs.lftruncate d)]
    refine alone_inside.lftruncate (h.shares _) (h.locked hd 0) ?_ ?_ hsz ?_ ?_
    · change ((lock d s).lfltab d).lfstate = _
      rw [lock_lfltab]
      exact hlive.used
    · change ((lock d s).lfltab d).lfdirptr = _
      rw [lock_lfltab]
    · intro hnil
      have hle := hlive.le
      rw [hnil] at hle hsz
      have hdata := hsz.data
      refine ⟨rfl, C.il, C.dl, _, _, h.shares _, hnil ▸ h.locked hd 0, hsz, ?_, ?_⟩
      · change ((lock d s).lfltab d).lfpos = 0
        rw [lock_lfltab]
        apply UInt32.toNat_inj.mp
        rw [show (s.lfltab d).lfpos.toNat = pos from hlive.lfpos]
        exact Nat.le_zero.mp hle
      · change _ ≤ ((lock d s).lfltab d).lfbyte
        rw [lock_lfltab]
        by_contra hlt
        have hplace := hlive.lfbyte (by simpa using hlt)
        have hlen := (List.getElem?_eq_some_iff.mp hplace.1).1
        simp only [List.length_nil] at hdata
        omega
    · intro s' il dl hs hh hpos hbyte _ _
      exact ⟨rfl, il, dl, [], [], hs, hh, ⟨rfl, rfl⟩, hpos, hbyte.ge⟩
  rcases run_alone hsure with ⟨s', r, hrun, ⟨hr, il, dl, ibs, dbs, hemptied⟩, hw⟩ | ⟨_, hfalse⟩
  · exact ⟨s', il, dl, ibs, dbs, hr ▸ hrun, hemptied, hw⟩
  · exact absurd hfalse id

theorem Sound.lflcontrol (h : Sound geo s C f) (d : Fin Nlfl) (func : Int) :
    Serves geo s (lflcontrol d func) (f.control d func).2 (f.control d func).1 := by
  have hm := h.fmutex d
  unfold Lfs.lflcontrol
  cases hd : f.opens d with
  | none =>
      have hspec : f.control d func = (f, SYSERR) := by
        unfold FileSys.control
        rw [hd]
      rw [hspec]
      exact h.refused (run_closed (h.fmutex d) (h.free d hd))
  | some o =>
      rcases o with ⟨i, pos⟩
      have hlive := h.live d i pos hd
      by_cases hfunc : func = LF_CTL_TRUNC
      · have hspec : f.control d func = ((f.setContent i []).setOpen d (some (i, 0)), OK) := by
          unfold FileSys.control
          simp only [hd, if_pos hfunc]
        rw [hspec]
        rcases h.run_lftruncate hd with ⟨s₂, il, dl, ibs, dbs, hrun, hemptied, hw⟩
        have hfixed := hw.fixed
        simp only [Lfs.fixed, Prod.mk.injEq] at hfixed
        generalize hs' : unlock d { s₂ with lfMutex := s₂.lfMutex + 1 } = s'
        have hblk : s'.lfltab d = { s₂.lfltab d with lfmutex := (s₂.lfltab d).lfmutex + 1 } := by
          rw [← hs', unlock, lfltab_setBlk]
        have hview : s'.view d (s.lfltab d).lfdirptr
            = { s₂.view d (s.lfltab d).lfdirptr with blk := s'.lfltab d } := by
          rw [← hs']
          rfl
        have ht : Touch geo d (s.lfltab d).lfdirptr (C.ownI (s.lfltab d).lfdirptr)
            (C.ownD (s.lfltab d).lfdirptr) s s' := by
          rw [← hs']
          exact ((touch_setBlk rfl).trans touch_mutex).trans
            (hw.touch.trans (touch_mutex.trans (touch_setBlk rfl)))
        have hmutex : s'.lfMutex = 1 := by
          rw [← hs']
          change s₂.lfMutex + 1 = 1
          rw [hw.mutex]
        have hfm : (s'.lfltab d).lfmutex = 1 := by
          rw [hblk]
          change (s₂.lfltab d).lfmutex + 1 = 1
          rw [hfixed.2.2.1, lock_lfltab, hm]
        have hsound := h.update hd rfl [] 0 ht hmutex hfm hemptied.shares
          { file := by
              rw [hview, hblk]
              exact hemptied.holds.file.congrBlk rfl
            pool := by
              rw [hview]
              exact hemptied.holds.pool } hemptied.sized (by rw [hblk, hemptied.lfpos]; rfl)
          (Nat.le_refl _)
          (by
            rw [hblk]
            intro hlt
            exact absurd hlt (Nat.not_lt.mpr hemptied.lfbyte))
        left
        refine ⟨s', _, ?_, hsound, ht.same⟩
        refine (h.run_open hd).trans ?_
        rw [if_pos hfunc, run_waitMutex (show (lock d s).lfMutex = 1 from h.mutex), run_bind, hrun,
          ← hs']
        rfl
      · have hspec : f.control d func = (f, SYSERR) := by
          unfold FileSys.control
          simp only [hd, if_neg hfunc]
        rw [hspec]
        apply h.refused
        refine (h.run_open hd).trans ?_
        rw [if_neg hfunc, run_refuse hm]

/-!
## Closing
-/

/-- A control block without blocks in memory. -/
structure Fresh (b : Lflcblk) : Prop where
  inum : b.lfinum = LF_INULL
  ibdirty : b.lfibdirty = false
  dnum : b.lfdnum = LF_DNULL
  dbdirty : b.lfdbdirty = false

theorem fresh_idleBlk : Fresh idleBlk := ⟨rfl, rfl, rfl, rfl⟩

/-- A file whose blocks in memory are clean can be forgotten there. -/
theorem FileOk.unload {disk : Nat → Sector} {ent : Ldentry} {blk blk' : Lflcblk}
    {ibs dbs : List UInt32} {bytes : List UInt8} (h : FileOk disk ent blk ibs dbs bytes)
    (hi : blk.lfibdirty = false) (hd : blk.lfdbdirty = false) (hinull : LF_INULL ∉ ibs)
    (hdnull : LF_DNULL ∉ dbs) (hnew : Fresh blk') : FileOk disk ent blk' ibs dbs bytes where
  size := h.size
  ilist := h.ilist
  room := h.room
  inum := Or.inl ⟨hnew.inum, hnew.ibdirty⟩
  dnum := Or.inl ⟨hnew.dnum, hnew.dbdirty⟩
  indexMem _ hk := absurd (hnew.inum ▸ List.mem_of_getElem? hk) hinull
  indexDisk k a hk _ := h.indexDisk k a hk fun _ => hi
  dataMem _ _ _ hb := absurd (hnew.dnum ▸ List.mem_of_getElem? hb) hdnull
  dataDisk p c b hp hb _ := h.dataDisk p c b hp hb fun _ => hd

/-- A device is given back whose blocks are clean. -/
theorem Sound.shut (h : Sound geo s C f) (hd : f.opens d = some (i, pos))
    (hclean : saved (s.lfltab d) = s.lfltab d) :
    Sound geo (s.setBlk d fun blk => { blk with lfstate := .free }) C (f.setOpen d none) where
  mutex := h.mutex
  fmutex d' := by
    by_cases hdd : d' = d
    · rw [hdd, lfltab_setBlk]
      exact h.fmutex d
    · change (upd s.lfltab d _ d').lfmutex = 1
      rw [upd_of_ne hdd]
      exact h.fmutex d'
  count := h.count
  few := h.few
  index := h.index
  data := h.data
  pool := h.pool
  sized := h.sized
  names := h.names
  distinct := h.distinct
  idle e he hno := by
    have hlive := h.live d i pos hd
    by_cases hee : e.val = i
    · have hptr : (s.lfltab d).lfdirptr = e := Fin.ext (hlive.entry.trans hee.symm)
      have hfile := hlive.file
      unfold Lfs.entryOf at hfile
      rw [hptr, ← hee] at hfile
      exact hfile.unload (congrArg Lflcblk.lfibdirty hclean.symm)
        (congrArg Lflcblk.lfdbdirty hclean.symm) (h.shares e).null_notMem_ibs
        (h.shares e).null_notMem_dbs fresh_idleBlk
    · apply h.idle e he
      intro d' p hd'
      by_cases hdd : d' = d
      · rw [hdd, hd] at hd'
        exact hee (congrArg Prod.fst (Option.some.inj hd')).symm
      · apply hno d' p
        change upd f.opens d none d' = _
        rw [upd_of_ne hdd, hd']
  free d' hd' := by
    by_cases hdd : d' = d
    · rw [hdd, lfltab_setBlk]
    · change (upd s.lfltab d _ d').lfstate = .free
      rw [upd_of_ne hdd]
      apply h.free d'
      change upd f.opens d none d' = none at hd'
      rwa [upd_of_ne hdd] at hd'
  live d' j p hd' := by
    change upd f.opens d none d' = _ at hd'
    by_cases hdd : d' = d
    · rw [hdd, upd_self] at hd'
      cases hd'
    · rw [upd_of_ne hdd] at hd'
      have hl := h.live d' j p hd'
      have hblk : (s.setBlk d fun blk => { blk with lfstate := .free }).lfltab d'
          = s.lfltab d' := upd_of_ne hdd
      exact { lt := hl.lt
              used := by rw [hblk]; exact hl.used
              entry := by rw [hblk]; exact hl.entry
              lfpos := by rw [hblk]; exact hl.lfpos
              le := hl.le
              file := by
                unfold Lfs.entryOf
                rw [hblk]
                exact hl.file
              lfbyte := by rw [hblk]; exact hl.lfbyte
              name := by rw [hblk]; exact hl.name }
  apart d₁ d₂ j p₁ p₂ h₁ h₂ := by
    change upd f.opens d none d₁ = _ at h₁
    change upd f.opens d none d₂ = _ at h₂
    have hne₁ : d₁ ≠ d := by
      intro heq
      rw [heq, upd_self] at h₁
      cases h₁
    have hne₂ : d₂ ≠ d := by
      intro heq
      rw [heq, upd_self] at h₂
      cases h₂
    rw [upd_of_ne hne₁] at h₁
    rw [upd_of_ne hne₂] at h₂
    exact h.apart d₁ d₂ j p₁ p₂ h₁ h₂

theorem Sound.lflclose (h : Sound geo s C f) (d : Fin Nlfl) :
    Serves geo s (lflclose d) (f.close d).2 (f.close d).1 := by
  have hm := h.fmutex d
  unfold Lfs.lflclose
  cases hd : f.opens d with
  | none =>
      have hspec : f.close d = (f, SYSERR) := by
        unfold FileSys.close
        rw [hd]
      rw [hspec]
      exact h.refused (run_closed (h.fmutex d) (h.free d hd))
  | some o =>
      rcases o with ⟨i, pos⟩
      have hlive := h.live d i pos hd
      have hspec : f.close d = (f.setOpen d none, OK) := by
        unfold FileSys.close
        rw [hd]
      rw [hspec]
      -- what is left is clean, and holds the same file
      have hflush : ∃ s₂, run (when ((lock d s).lfDirdirty || ((lock d s).lfltab d).lfdbdirty ||
          ((lock d s).lfltab d).lfibdirty) (do let _ ← lfflush d; return ())) (lock d s)
          = some (s₂, ()) ∧
          Holds (s₂.view d (s.lfltab d).lfdirptr) C.il C.dl (C.ibs (s.lfltab d).lfdirptr)
            (C.dbs (s.lfltab d).lfdirptr) (f.content i) ∧
          s₂.lfltab d = saved ((lock d s).lfltab d) ∧
          Within geo d (s.lfltab d).lfdirptr (C.ownI (s.lfltab d).lfdirptr)
            (C.ownD (s.lfltab d).lfdirptr) (lock d s) s₂ := by
        have hsure : Sure (alone geo d (s.lfltab d).lfdirptr (C.ownI (s.lfltab d).lfdirptr)
            (C.ownD (s.lfltab d).lfdirptr) False)
            (fun _ _ s₂ => Holds (s₂.view d (s.lfltab d).lfdirptr) C.il C.dl
              (C.ibs (s.lfltab d).lfdirptr) (C.dbs (s.lfltab d).lfdirptr) (f.content i) ∧
              s₂.lfltab d = saved ((lock d s).lfltab d))
            (when ((lock d s).lfDirdirty || ((lock d s).lfltab d).lfdbdirty ||
              ((lock d s).lfltab d).lfibdirty) (do let _ ← lfflush d; return ())) ()
            (lock d s) := by
          rw [← bind_pure_eq (when _ _)]
          apply sure_when
          · intro _
            rw [bind_assoc_eq]
            apply alone_inside.lfflush (h.shares _) (h.locked hd s.lfMutex)
            · rw [lock_lfltab]
              exact hlive.used
            · intro s₂ hh₂ hb₂
              exact ⟨hh₂, hb₂⟩
          · intro hclean
            rw [Bool.or_eq_false_iff, Bool.or_eq_false_iff] at hclean
            exact ⟨h.locked hd s.lfMutex, (saved_eq hclean.2 hclean.1.2).symm⟩
        rcases run_alone hsure with ⟨s₂, _, hrun, ⟨hh, hb⟩, hw⟩ | ⟨_, hfalse⟩
        · exact ⟨s₂, hrun, hh, hb, hw⟩
        · exact absurd hfalse id
      rcases hflush with ⟨s₂, hrun, hh, hb, hw⟩
      have hblk : (unlock d s₂).lfltab d = saved (s.lfltab d) := by
        have hone : (s.lfltab d).lfmutex - 1 + 1 = (s.lfltab d).lfmutex := by omega
        rw [unlock, lfltab_setBlk, hb, lock_lfltab]
        exact congrArg (fun n => { saved (s.lfltab d) with lfmutex := n }) hone
      have ht : Touch geo d (s.lfltab d).lfdirptr (C.ownI (s.lfltab d).lfdirptr)
          (C.ownD (s.lfltab d).lfdirptr) s (unlock d s₂) :=
        (touch_setBlk rfl).trans (hw.touch.trans (touch_setBlk rfl))
      have hview : (unlock d s₂).view d (s.lfltab d).lfdirptr
          = { s₂.view d (s.lfltab d).lfdirptr with blk := (unlock d s₂).lfltab d } := rfl
      have hsz : Sized (C.ibs (s.lfltab d).lfdirptr) (C.dbs (s.lfltab d).lfdirptr)
          (f.content i).length := hlive.entry ▸ h.sized (s.lfltab d).lfdirptr
      have hsound := h.update hd rfl (f.content i) pos ht (hw.mutex.trans h.mutex)
        (by rw [hblk]; exact hm) (h.shares (s.lfltab d).lfdirptr)
        { file := by
            rw [hview, hblk]
            apply hh.file.congrBlk
            change cached (saved (s.lfltab d)) = cached (s₂.lfltab d)
            rw [hb, lock_lfltab]
            rfl
          pool := hh.pool } hsz (by rw [hblk]; exact hlive.lfpos) hlive.le
        (by rw [hblk]; exact hlive.lfbyte)
      rw [setContent_self hlive.lt, setOpen_self hd] at hsound
      have hshut := hsound.shut hd (by rw [hblk]; rfl)
      left
      refine ⟨_, _, ?_, hshut, ?_⟩
      · refine (h.run_open hd).trans ?_
        rw [run_bind, hrun]
        change some (unlock d (s₂.setBlk d fun blk => { blk with lfstate := .free }), OK) = _
        unfold unlock setBlk
        simp only [upd_self, upd_upd]
      · exact ht.same.trans
          { present := rfl
            dev := by
              intro d'
              by_cases hdd : d' = d
              · rw [hdd, lfltab_setBlk]
              · exact congrArg Lflcblk.lfdev (upd_of_ne hdd) }

end Lfs
end BbbXinu
