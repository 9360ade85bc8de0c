import Mathlib.Data.List.Perm.Subperm
import BbbXinu.Invariant.LfsBlocks

/-!
# Setting up the blocks of a position

{lit}`lfflush` and the three parts of {lit}`lfsetup`: the first index block, the
walk along the list of index blocks, and the data block.  A position at the end
of a file can need a new index block and a new data block.
-/

namespace BbbXinu
namespace Lfs

open Layouts Prog

/-- The file and the free lists as a process sees them. -/
structure Holds (v : View) (il dl ibs dbs : List UInt32) (bytes : List UInt8) : Prop where
  file : FileOk v.disk v.ent v.blk ibs dbs bytes
  pool : Pool v.disk v.ifree v.dfree il dl

/-- A file has exactly the blocks that its bytes need. -/
structure Sized (ibs dbs : List UInt32) (n : Nat) : Prop where
  data : dbs.length = (n + 511) / 512
  index : ibs.length = (n + 8191) / 8192

/-- A control block without changes that are not on the disk. -/
def saved (b : Lflcblk) : Lflcblk := { b with lfibdirty := false, lfdbdirty := false }

theorem saved_eq {b : Lflcblk} (hi : b.lfibdirty = false) (hd : b.lfdbdirty = false) :
    saved b = b := by
  cases b
  subst hi hd
  rfl

section

variable {γ α : Type} {r : Rules Lfs γ} {g : γ} {geo : Geometry} {d : Fin Nlfl}
  {e : Fin LF_NUM_DIR_ENT} {ownI ownD : Set UInt32} {Q : α → γ → Lfs → Prop} {s : Lfs}
  {il dl ibs dbs : List UInt32} {bytes : List UInt8}

/-!
## Flushing
-/

theorem Inside.lfflush (hr : Inside r g geo d e ownI ownD)
    (hs : Shares geo ownI ownD il dl ibs dbs) (hh : Holds (s.view d e) il dl ibs dbs bytes)
    (hused : (s.lfltab d).lfstate = .used) {f : Int → Prog Lfs α}
    (hf : ∀ s', Holds (s'.view d e) il dl ibs dbs bytes → s'.lfltab d = saved (s.lfltab d) →
      Sure r Q (f OK) g s') :
    Sure r Q (Lfs.lfflush d >>= f) g s := by
  unfold Lfs.lfflush
  rw [bind_assoc_eq, sure_get, if_neg (by rw [hused]; simp), bind_assoc_eq]
  -- the directory
  suffices hdata : ∀ s₁, Holds (s₁.view d e) il dl ibs dbs bytes →
      s₁.lfltab d = s.lfltab d → Sure r Q _ g s₁ by
    apply sure_when
    · intro _
      rw [bind_assoc_eq]
      apply hr.writeDir
      intro s₁ c hs₁
      apply hr.modify within_setDirdirty
      refine hdata _ ?_ ?_
      · rw [view_setDirdirty, hs₁]
        exact { file := hh.file.dirWritten hs c
                pool := hh.pool.dirWritten hs c }
      · exact congrArg View.blk hs₁
    · intro _
      exact hdata s hh rfl
  intro s₁ hh₁ hb₁
  -- the data block
  rw [bind_assoc_eq, sure_get, bind_assoc_eq]
  suffices hindex : ∀ s₂, Holds (s₂.view d e) il dl ibs dbs bytes →
      s₂.lfltab d = { s.lfltab d with lfdbdirty := false } → Sure r Q _ g s₂ by
    apply sure_when
    · intro hdirty
      have hmem : (s₁.lfltab d).lfdnum ∈ dbs := by
        rcases hh₁.file.dnum with hnull | hmem
        · exact absurd hdirty (by rw [show (s₁.lfltab d).lfdbdirty = false from hnull.2]; simp)
        · exact hmem
      rw [bind_assoc_eq]
      apply hr.writeBlock (hs.isData hmem) ((hs.down _).mpr (Or.inr hmem))
        (c := (s₁.lfltab d).lfdblock)
      · intro s' hs'
        rw [show s'.lfltab d = s₁.lfltab d from congrArg View.blk hs']
      intro s₂ hs₂
      apply hr.modify (within_setBlk rfl)
      refine hindex _ ?_ ?_
      · rw [view_setBlk, hs₂]
        exact { file := hh₁.file.flushData hmem
                  fun a ha => (hs.sector_ne ha hmem).symm
                pool := hh₁.pool.dataWritten hs hmem _ }
      · have hblk : s₂.lfltab d = s.lfltab d := (congrArg View.blk hs₂).trans hb₁
        change upd s₂.lfltab d _ d = _
        rw [upd_self, hblk]
    · intro hclean
      refine hindex s₁ hh₁ ?_
      rw [hb₁] at hclean ⊢
      rw [← hclean]
  intro s₂ hh₂ hb₂
  -- the index block
  rw [bind_assoc_eq, sure_get, bind_assoc_eq]
  apply sure_when
  · intro hdirty
    have hmem : (s₂.lfltab d).lfinum ∈ ibs := by
      rcases hh₂.file.inum with hnull | hmem
      · exact absurd hdirty (by rw [show (s₂.lfltab d).lfibdirty = false from hnull.2]; simp)
      · exact hmem
    rw [bind_assoc_eq]
    apply hr.lfibput (s₂.lfltab d).lfiblock (hs.isIndex hmem) ((hs.iown _).mpr (Or.inr hmem))
    · intro s' hs'
      rw [show s'.lfltab d = s₂.lfltab d from congrArg View.blk hs']
    intro s₃ hs₃
    apply hr.modify (within_setBlk rfl)
    refine hf _ ?_ ?_
    · rw [view_setBlk, hs₃]
      exact { file := hh₂.file.flushIndex hmem fun b hb => hs.sector_ne hmem hb
              pool := hh₂.pool.indexWritten hs hmem _ }
    · have hblk : s₃.lfltab d = { s.lfltab d with lfdbdirty := false } :=
        (congrArg View.blk hs₃).trans hb₂
      change upd s₃.lfltab d _ d = _
      rw [upd_self, hblk]
      rfl
  · intro hclean
    refine hf s₂ hh₂ ?_
    rw [hb₂] at hclean ⊢
    unfold saved
    rw [← show (s.lfltab d).lfibdirty = false from hclean]

/-- The blocks in memory are flushed where one of them has changed. -/
theorem Inside.flushWhen (hr : Inside r g geo d e ownI ownD)
    (hs : Shares geo ownI ownD il dl ibs dbs) (hh : Holds (s.view d e) il dl ibs dbs bytes)
    (hused : (s.lfltab d).lfstate = .used) {f : Unit → Prog Lfs α}
    (hf : ∀ s', Holds (s'.view d e) il dl ibs dbs bytes → s'.lfltab d = saved (s.lfltab d) →
      Sure r Q (f ()) g s') :
    Sure r Q (Prog.when ((s.lfltab d).lfibdirty || (s.lfltab d).lfdbdirty) (do
      let _ ← Lfs.lfflush d
      return ()) >>= f) g s := by
  apply sure_when
  · intro _
    rw [bind_assoc_eq]
    exact hr.lfflush hs hh hused hf
  · intro hclean
    rw [Bool.or_eq_false_iff] at hclean
    exact hf s hh (saved_eq hclean.1 hclean.2).symm

/-!
## The index block of the position
-/

/-- The index block in memory is number {lit}`k` of the file and not behind the
position. -/
structure Located (e : Fin LF_NUM_DIR_ENT) (pos : UInt32) (v : View) (k : Nat)
    (il dl ibs dbs : List UInt32) (bytes : List UInt8) : Prop where
  holds : Holds v il dl ibs dbs bytes
  here : ibs[k]? = some v.blk.lfinum
  le : k ≤ pos.toNat / 8192
  clean : v.blk.lfdbdirty = false
  iclean : v.blk.lfibdirty = false ∨ k = pos.toNat / 8192
  lfpos : v.blk.lfpos = pos
  entry : v.blk.lfdirptr = e

/-- The free list and the blocks of a file, which had no block with the given number and
may have been given one. -/
def Grown (k : Nat) (free own free' own' : List UInt32) : Prop :=
  (free' = free ∧ own' = own) ∨
    ∃ a, free = a :: free' ∧ own' = own ++ [a] ∧ own.length = k

/-- Identifiers below a bound, none twice, are fewer than the bound. -/
theorem length_le_of_lt {l : List UInt32} {n : Nat} (hn : l.Nodup) (hlt : ∀ a ∈ l, a.toNat < n) :
    l.length ≤ n := by
  have hnat : (l.map UInt32.toNat).Nodup :=
    List.Nodup.map (fun _ _ h => UInt32.toNat_inj.mp h) hn
  have hrange : l.map UInt32.toNat ⊆ List.range n := by
    intro x hx
    rcases List.mem_map.mp hx with ⟨a, ha, rfl⟩
    exact List.mem_range.mpr (hlt a ha)
  simpa using (List.subperm_of_subset hnat hrange).length_le

theorem Shares.length_lt (hs : Shares geo ownI ownD il dl ibs dbs) :
    ibs.length < 67108864 := by
  have hle := length_le_of_lt hs.ibs_nodup fun a ha => hs.isIndex ha
  have h1 := geo.sects_lt
  have h2 := geo.isects_lt
  omega

theorem Shares.data_length_lt (hs : Shares geo ownI ownD il dl ibs dbs) :
    dbs.length < 8388608 := by
  have hle := length_le_of_lt hs.dbs_nodup fun b hb => (hs.isData hb).2
  have h1 := geo.sects_lt
  omega

theorem clean_of_saved {b : Lflcblk} (h : b = saved b) :
    b.lfibdirty = false ∧ b.lfdbdirty = false := by
  rw [h]
  exact ⟨rfl, rfl⟩

section

variable (hr : Inside r g geo d e ownI ownD) (hs : Shares geo ownI ownD il dl ibs dbs)
  (hh : Holds (s.view d e) il dl ibs dbs bytes) (hsaved : s.lfltab d = saved (s.lfltab d))
  (hentry : (s.lfltab d).lfdirptr = e) {f : Unit → Prog Lfs α}

include hh hentry in
theorem Holds.ilist : (s.entryOf d).ldIlist = ibs.headD LF_INULL := by
  unfold Lfs.entryOf
  rw [hentry]
  exact hh.file.ilist

include hh hsaved hentry in
/-- The index block in memory is kept when it does not lie behind the position. -/
theorem Holds.keepFirst (hnull : (s.lfltab d).lfinum ≠ LF_INULL)
    (hback : ¬(s.lfltab d).lfpos < (s.lfltab d).lfiblock.ibOffset)
    (hsize : Sized ibs dbs bytes.length)
    (hf : ∀ k, Located e (s.lfltab d).lfpos (s.view d e) k il dl ibs dbs bytes →
      Sure r Q (f ()) g s) :
    Sure r Q (Lfs.firstIblock d >>= f) g s := by
  have hclean := clean_of_saved hsaved
  have hmem : (s.lfltab d).lfinum ∈ ibs := by
    rcases hh.file.inum with hn | hm
    · exact absurd hn.1 hnull
    · exact hm
  rcases List.getElem?_of_mem hmem with ⟨k, hk⟩
  have hib := hh.file.indexMem k hk
  have hklt : k < ibs.length := (List.getElem?_eq_some_iff.mp hk).1
  have hoff : ((s.lfltab d).lfiblock).ibOffset.toNat = 8192 * k := by
    rw [show (s.lfltab d).lfiblock = indexBlock ibs dbs k from hib]
    apply indexBlock_offset
    have := hsize.index
    have hsz : bytes.length < 4294967296 := by
      rw [← hh.file.size]
      exact UInt32.toNat_lt _
    omega
  have hle : k ≤ (s.lfltab d).lfpos.toNat / 8192 := by
    have hnlt : ¬(s.lfltab d).lfpos.toNat < (s.lfltab d).lfiblock.ibOffset.toNat := hback
    omega
  unfold Lfs.firstIblock
  rw [bind_assoc_eq, sure_get, if_neg hnull, if_neg hback]
  exact hf k { holds := hh
               here := hk
               le := hle
               clean := hclean.2
               iclean := Or.inl hclean.1
               lfpos := rfl
               entry := hentry }

include hr hs hh hsaved hentry

/-- The first index block of a file that has one is read. -/
theorem Inside.loadFirst (hne : ibs ≠ [])
    (hf : ∀ s', Located e (s.lfltab d).lfpos (s'.view d e) 0 il dl ibs dbs bytes →
      Sure r Q (f ()) g s') :
    Sure r Q ((do
      let ib ← Lfs.lfibget (s.entryOf d).ldIlist
      Prog.modify (setIblock d (s.entryOf d).ldIlist ib)) >>= f) g s := by
  have hclean := clean_of_saved hsaved
  have h0 : ibs[0]? = some (ibs.headD LF_INULL) := by
    cases ibs with
    | nil => exact absurd rfl hne
    | cons a l => rfl
  rw [hh.ilist hentry, bind_assoc_eq]
  apply hr.lfibget
  intro s₁ hs₁
  apply hr.modify (within_setBlk rfl)
  apply hf
  unfold setIblock
  rw [view_setBlk, hs₁]
  exact { holds := { file := hh.file.loadIndex hclean.1 hs.ibs_nodup h0
                     pool := hh.pool }
          here := h0
          le := Nat.zero_le _
          clean := hclean.2
          iclean := Or.inl hclean.1
          lfpos := rfl
          entry := hentry }

/-- An empty file gets its first index block. -/
theorem Inside.newFirst (hnull : (s.lfltab d).lfinum = LF_INULL) (hnone : ibs = [])
    (hsize : Sized ibs dbs bytes.length) (hpos : (s.lfltab d).lfpos.toNat ≤ bytes.length)
    (hstop : il = [] → r.stops)
    (hf : ∀ s' il' ibs', Grown ((s.lfltab d).lfpos.toNat / 8192) il ibs il' ibs' →
      (s.lfltab d).lfpos.toNat / 8192 = 0 →
      Located e (s.lfltab d).lfpos (s'.view d e) 0 il' dl ibs' dbs bytes →
      Sure r Q (f ()) g s') :
    Sure r Q (Lfs.firstIblock d >>= f) g s := by
  have hclean := clean_of_saved hsaved
  have hlist := hh.ilist hentry
  subst hnone
  have hbytes : bytes.length = 0 := by
    have := hsize.index
    simp at this
    omega
  have hdbs : dbs = [] := by
    have := hsize.data
    rw [hbytes] at this
    exact List.length_eq_zero_iff.mp this
  have hz : (s.lfltab d).lfpos.toNat / 8192 = 0 := by omega
  unfold Lfs.firstIblock
  rw [bind_assoc_eq, sure_get, if_pos hnull]
  change Sure r Q ((if (s.entryOf d).ldIlist = LF_INULL then _ else _) >>= f) g s
  rw [if_pos (show (s.entryOf d).ldIlist = LF_INULL from hlist), bind_assoc_eq]
  apply hr.lfiballoc hh.pool (fun a ha => (hs.freeIndex ha).ne_null) hstop
  intro a il' c s₁ hil hs₁
  have hentry₁ : (s₁.lfltab d).lfdirptr = e :=
    (congrArg (fun v => v.blk.lfdirptr) hs₁).trans hentry
  rw [bind_assoc_eq]
  apply hr.modify (within_setBlk rfl)
  rw [bind_assoc_eq]
  have hset : ((setIblock d (s₁.lfltab d).lfinum (lfibclear 0) s₁).lfltab d).lfdirptr = e := by
    change (upd s₁.lfltab d _ d).lfdirptr = e
    rw [upd_self]
    exact hentry₁
  apply hr.modify
  · rw [hset]
    exact within_setEntry rfl
  rw [hset]
  apply hr.modify (within_setBlk rfl)
  apply hf _ il' [a] (Or.inr ⟨a, hil, rfl, hz.symm⟩) hz
  unfold setIblock
  rw [view_setBlk, view_setEntry, view_setBlk, hs₁]
  have hpool := hh.pool.dirWritten hs c
  rw [hil] at hpool
  rw [hdbs] at hh hs ⊢
  exact { holds := { file := (hh.file.dirWritten hs c).newIndex hclean.2
                     pool := hpool.takeIndex }
          here := rfl
          le := Nat.zero_le _
          clean := hclean.2
          iclean := Or.inr hz.symm
          lfpos := rfl
          entry := hentry }

theorem Inside.firstIblock (hsize : Sized ibs dbs bytes.length)
    (hpos : (s.lfltab d).lfpos.toNat ≤ bytes.length) (hstop : il = [] → ibs = [] → r.stops)
    (hf : ∀ s' k il' ibs', Grown ((s.lfltab d).lfpos.toNat / 8192) il ibs il' ibs' →
      (k < (s.lfltab d).lfpos.toNat / 8192 → ibs' = ibs) →
      Located e (s.lfltab d).lfpos (s'.view d e) k il' dl ibs' dbs bytes →
      Sure r Q (f ()) g s') :
    Sure r Q (Lfs.firstIblock d >>= f) g s := by
  have hlist := hh.ilist hentry
  have hload := hr.loadFirst (Q := Q) (f := f) hs hh hsaved hentry
  by_cases hnull : (s.lfltab d).lfinum = LF_INULL
  · cases hibs : ibs with
    | nil =>
        apply hr.newFirst hs hh hsaved hentry hnull hibs hsize hpos fun hil => hstop hil hibs
        intro s' il' ibs' hgrown hz hloc
        exact hf s' 0 il' ibs' hgrown (fun hlt => absurd hlt (by omega)) hloc
    | cons a l =>
        have hne : ibs ≠ [] := by simp [hibs]
        have hlistne : (s.entryOf d).ldIlist ≠ LF_INULL := by
          rw [hlist, hibs]
          exact (hs.isIndex (by simp [hibs])).ne_null
        unfold Lfs.firstIblock
        rw [bind_assoc_eq, sure_get, if_pos hnull]
        change Sure r Q ((if (s.entryOf d).ldIlist = LF_INULL then _ else _) >>= f) g s
        rw [if_neg hlistne]
        exact hload hne fun s' => hf s' 0 il ibs (Or.inl ⟨rfl, rfl⟩) fun _ => rfl
  · by_cases hback : (s.lfltab d).lfpos < (s.lfltab d).lfiblock.ibOffset
    · have hne : ibs ≠ [] := by
        rcases hh.file.inum with hn | hm
        · exact absurd hn.1 hnull
        · exact List.ne_nil_of_mem hm
      unfold Lfs.firstIblock
      rw [bind_assoc_eq, sure_get, if_neg hnull, if_pos hback]
      exact hload hne fun s' => hf s' 0 il ibs (Or.inl ⟨rfl, rfl⟩) fun _ => rfl
    · exact hh.keepFirst hsaved hentry hnull hback hsize
        fun k => hf s k il ibs (Or.inl ⟨rfl, rfl⟩) fun _ => rfl

end

section

variable {pos : UInt32} {k : Nat} (hr : Inside r g geo d e ownI ownD)
  (hs : Shares geo ownI ownD il dl ibs dbs)
  (hl : Located e pos (s.view d e) k il dl ibs dbs bytes)

include hl in
theorem Located.ibNext : (s.lfltab d).lfiblock.ibNext = (ibs[k + 1]?).getD LF_INULL := by
  rw [show (s.lfltab d).lfiblock = indexBlock ibs dbs k from hl.holds.file.indexMem k hl.here]
  rfl

include hl in
theorem Located.clean_of_lt (hlt : k < pos.toNat / 8192) : (s.lfltab d).lfibdirty = false := by
  rcases hl.iclean with hc | hc
  · exact hc
  · exact absurd hc (Nat.ne_of_lt hlt)

include hr hs hl

/-- The file gets a further index block behind its last one. -/
theorem Inside.newNext (hnull : (s.lfltab d).lfiblock.ibNext = LF_INULL)
    (hsize : dbs.length ≤ 16 * ibs.length) (hpos : pos.toNat ≤ bytes.length)
    (hstop : il = [] → ibs.length ≤ pos.toNat / 8192 → r.stops) (hlt : k < pos.toNat / 8192)
    {f : Unit → Prog Lfs α}
    (hf : ∀ s' il' ibs', Grown (pos.toNat / 8192) il ibs il' ibs' →
      k + 1 = pos.toNat / 8192 →
      Located e pos ((s'.setBlk d fun blk => { blk with lfdnum := LF_DNULL }).view d e) (k + 1)
        il' dl ibs' dbs bytes →
      Sure r Q (f ()) g s') :
    Sure r Q (Lfs.followIblock d (s.lfltab d).lfiblock >>= f) g s := by
  have hfile := hl.holds.file
  have hklt : k < ibs.length := (List.getElem?_eq_some_iff.mp hl.here).1
  have hib : (s.lfltab d).lfiblock = indexBlock ibs dbs k := hfile.indexMem k hl.here
  have hiclean := hl.clean_of_lt hlt
  have hnext := hl.ibNext
  unfold Lfs.followIblock
  have hklast : k + 1 = ibs.length := by
    by_contra hne
    have hsome : ibs[k + 1]? = some ibs[k + 1] := List.getElem?_eq_getElem (by omega)
    rw [hsome] at hnext
    exact (hs.isIndex (List.getElem_mem (by omega))).ne_null (hnext.symm.trans hnull)
  have hK : k + 1 = pos.toNat / 8192 := by
    have hroom := hfile.room
    omega
  rw [if_pos hnull, bind_assoc_eq]
  apply hr.lfiballoc hl.holds.pool (fun a ha => (hs.freeIndex ha).ne_null)
    fun hil => hstop hil (by omega)
  intro a il' c s₁ hil hs₁
  rw [hil] at hs
  have hblk₁ : s₁.lfltab d = s.lfltab d := congrArg View.blk hs₁
  rw [bind_assoc_eq]
  apply hr.modify (within_setBlk rfl)
  rw [bind_assoc_eq, sure_get, bind_assoc_eq]
  generalize hs₂ : setIblock d (s₁.lfltab d).lfinum
      { (s₁.lfltab d).lfiblock with ibNext := a } s₁ = s₂
  have hview₂ : s₂.view d e = { s.view d e with
      disk := upd s.disk LF_AREA_DIR c, ifree := il'.headD LF_INULL,
      blk := { s.lfltab d with lfiblock := indexBlock (ibs ++ [a]) dbs k } } := by
    rw [← hs₂]
    unfold setIblock
    rw [view_setBlk, hs₁, hblk₁, hib, indexBlock_last hklast]
    rfl
  have hdisk₂ : s₂.disk = upd s.disk LF_AREA_DIR c := congrArg View.disk hview₂
  have hblk₂ : s₂.lfltab d = { s.lfltab d with lfiblock := indexBlock (ibs ++ [a]) dbs k } :=
    congrArg View.blk hview₂
  have hmem : (s.lfltab d).lfinum ∈ ibs := List.mem_of_getElem? hl.here
  rw [hblk₂]
  apply hr.lfibput (indexBlock (ibs ++ [a]) dbs k) (hs.isIndex hmem)
    ((hs.iown _).mpr (Or.inr hmem))
  · intro s' hs'
    rw [show s'.lfltab d = _ from congrArg View.blk hs']
    exact congrArg Lflcblk.lfiblock hblk₂
  intro s₃ hs₃
  have hblk₃ : s₃.lfltab d = { s.lfltab d with lfiblock := indexBlock (ibs ++ [a]) dbs k } :=
    (congrArg View.blk hs₃).trans hblk₂
  rw [bind_assoc_eq]
  apply hr.modify (within_setBlk rfl)
  apply hr.modify (within_setBlk rfl)
  rw [hview₂, hdisk₂] at hs₃
  have hoffset : (s₃.lfltab d).lfiblock.ibOffset + LF_IDATA = UInt32.ofNat (8192 * (k + 1)) := by
    rw [hblk₃]
    change UInt32.ofNat (8192 * k) + LF_IDATA = _
    rw [Nat.mul_add, UInt32.ofNat_add]
    rfl
  rw [hoffset]
  apply hf _ il' (ibs ++ [a]) (Or.inr ⟨a, hil, rfl, by omega⟩) hK
  rw [view_setBlk, view_setBlk]
  unfold setIblock
  rw [view_setBlk, hs₃]
  have hpool := hl.holds.pool.dirWritten (hil ▸ hs) c
  rw [hil] at hpool
  have htake := hs.takeIndex
  have hfile' := (((hfile.dirWritten hs c).appendIndex (a := a) hiclean
    htake.ibs_nodup hklast hl.here hsize fun b hb => hs.sector_ne hmem hb).dropData
    hl.clean hs.null_notMem_dbs (s.lfltab d).lfdblock)
  exact { holds := { file := hfile'
                     pool := hpool.takeIndex.indexWritten htake (by simp [hmem]) _ }
          here := by
            change (ibs ++ [a])[k + 1]? = some a
            rw [List.getElem?_append_right (by omega)]
            simp [hklast]
          le := hlt
          clean := hl.clean
          iclean := Or.inr hK
          lfpos := hl.lfpos
          entry := hl.entry }

/-- The next index block of the file is read. -/
theorem Inside.loadNext (hnull : (s.lfltab d).lfiblock.ibNext ≠ LF_INULL)
    (hlt : k < pos.toNat / 8192) {f : Unit → Prog Lfs α}
    (hf : ∀ s', Located e pos
        ((s'.setBlk d fun blk => { blk with lfdnum := LF_DNULL }).view d e) (k + 1)
        il dl ibs dbs bytes →
      Sure r Q (f ()) g s') :
    Sure r Q (Lfs.followIblock d (s.lfltab d).lfiblock >>= f) g s := by
  have hfile := hl.holds.file
  have hiclean := hl.clean_of_lt hlt
  have hnext := hl.ibNext
  unfold Lfs.followIblock
  rw [if_neg hnull, bind_assoc_eq]
  have hsome : ibs[k + 1]? = some (s.lfltab d).lfiblock.ibNext := by
    cases hopt : ibs[k + 1]? with
    | none =>
        rw [hopt] at hnext
        exact absurd hnext hnull
    | some a =>
        rw [hopt] at hnext
        rw [hnext]
        rfl
  apply hr.lfibget
  intro s₁ hs₁
  apply hr.modify (within_setBlk rfl)
  apply hf
  unfold setIblock
  rw [view_setBlk, view_setBlk, hs₁]
  exact { holds := { file := (hfile.loadIndex hiclean hs.ibs_nodup hsome).dropData
                      hl.clean hs.null_notMem_dbs (s.lfltab d).lfdblock
                     pool := hl.holds.pool }
          here := hsome
          le := hlt
          clean := hl.clean
          iclean := Or.inl hiclean
          lfpos := hl.lfpos
          entry := hl.entry }

/-- Before the block of the position the walk goes on to the next index block, which the file
may be given only now.  The data block in memory is forgotten after that. -/
theorem Inside.followIblock (hsize : dbs.length ≤ 16 * ibs.length)
    (hpos : pos.toNat ≤ bytes.length)
    (hstop : il = [] → ibs.length ≤ pos.toNat / 8192 → r.stops) (hlt : k < pos.toNat / 8192)
    {f : Unit → Prog Lfs α}
    (hf : ∀ s' il' ibs', Grown (pos.toNat / 8192) il ibs il' ibs' →
      (k + 1 < pos.toNat / 8192 → ibs' = ibs) →
      Located e pos ((s'.setBlk d fun blk => { blk with lfdnum := LF_DNULL }).view d e) (k + 1)
        il' dl ibs' dbs bytes →
      Sure r Q (f ()) g s') :
    Sure r Q (Lfs.followIblock d (s.lfltab d).lfiblock >>= f) g s := by
  by_cases hnull : (s.lfltab d).lfiblock.ibNext = LF_INULL
  · apply hr.newNext hs hl hnull hsize hpos hstop hlt
    intro s' il' ibs' hgrown hK hloc
    exact hf s' il' ibs' hgrown (fun h => absurd hK (Nat.ne_of_lt h)) hloc
  · exact hr.loadNext hs hl hnull hlt fun s' => hf s' il ibs (Or.inl ⟨rfl, rfl⟩) fun _ => rfl

end

/-- One round of the walk along the index blocks: at the block of the position it ends,
and before that it goes on. -/
theorem Inside.nextIblock (hr : Inside r g geo d e ownI ownD) {pos : UInt32} {k : Nat}
    (hs : Shares geo ownI ownD il dl ibs dbs)
    (hl : Located e pos (s.view d e) k il dl ibs dbs bytes)
    (hsize : dbs.length ≤ 16 * ibs.length) (hpos : pos.toNat ≤ bytes.length)
    (hstop : il = [] → ibs.length ≤ pos.toNat / 8192 → r.stops)
    {f : (Unit ⊕ Unit) → Prog Lfs α}
    (hend : k = pos.toNat / 8192 → Sure r Q (f (.inr ())) g s)
    (hf : ∀ s' il' ibs', Grown (pos.toNat / 8192) il ibs il' ibs' →
      (k + 1 < pos.toNat / 8192 → ibs' = ibs) →
      Located e pos (s'.view d e) (k + 1) il' dl ibs' dbs bytes →
      Sure r Q (f (.inl ())) g s') :
    Sure r Q (Lfs.nextIblock d >>= f) g s := by
  have hib : (s.lfltab d).lfiblock = indexBlock ibs dbs k := hl.holds.file.indexMem k hl.here
  have hlpos : (s.lfltab d).lfpos = pos := hl.lfpos
  have hplt := pos.toNat_lt
  have hoff : ((s.lfltab d).lfiblock).ibOffset.toNat = 8192 * k := by
    rw [hib]
    apply indexBlock_offset
    have := hl.le
    omega
  unfold Lfs.nextIblock
  rw [bind_assoc_eq, sure_get]
  change Sure r Q ((if (s.lfltab d).lfpos &&& ~~~LF_IMASK ≤ (s.lfltab d).lfiblock.ibOffset
    then _ else _) >>= f) g s
  have hcond : (s.lfltab d).lfpos &&& ~~~LF_IMASK ≤ (s.lfltab d).lfiblock.ibOffset
      ↔ k = pos.toNat / 8192 := by
    rw [UInt32.le_iff_toNat_le, toNat_iblockStart, hoff, hlpos]
    have := hl.le
    omega
  by_cases hk : k = pos.toNat / 8192
  · rw [if_pos (hcond.mpr hk)]
    exact hend hk
  · rw [if_neg (fun h => hk (hcond.mp h)), bind_assoc_eq]
    apply hr.followIblock hs hl hsize hpos hstop (Nat.lt_of_le_of_ne hl.le hk)
    intro s' il' ibs' hgrown hsame hloc
    rw [bind_assoc_eq]
    apply hr.modify (within_setBlk rfl)
    exact hf _ il' ibs' hgrown hsame hloc

/-!
## The data block of the position
-/

/-- What {lit}`lfsetup` leaves: the file, which may have a further data block, with the block
of the position in memory. -/
structure Ready (e : Fin LF_NUM_DIR_ENT) (pos : UInt32) (v : View)
    (il dl ibs dbs : List UInt32) (bytes : List UInt8) : Prop where
  holds : Holds v il dl ibs dbs bytes
  here : dbs[pos.toNat / 512]? = some v.blk.lfdnum
  lfpos : v.blk.lfpos = pos
  entry : v.blk.lfdirptr = e

section

variable {pos : UInt32} (hr : Inside r g geo d e ownI ownD)
  (hs : Shares geo ownI ownD il dl ibs dbs)
  (hl : Located e pos (s.view d e) (pos.toNat / 8192) il dl ibs dbs bytes)
  {f : Unit → Prog Lfs α}

include hl in
theorem Located.ibDba :
    (s.lfltab d).lfiblock.ibDba (dindex pos) = (dbs[pos.toNat / 512]?).getD LF_DNULL := by
  have hplace : 16 * (pos.toNat / 8192) + (dindex pos).val = pos.toNat / 512 := by
    rw [toNat_dindex]
    omega
  rw [show (s.lfltab d).lfiblock = indexBlock ibs dbs (pos.toNat / 8192) from
    hl.holds.file.indexMem _ hl.here, ← hplace]
  rfl

include hr hs hl

/-- The file gets a further data block behind its last one. -/
theorem Inside.newData (hopt : dbs[pos.toNat / 512]? = none) (hpos : pos.toNat ≤ bytes.length)
    (hstop : dl = [] → dbs.length ≤ pos.toNat / 512 → r.stops)
    (hf : ∀ s' dl' dbs', Grown (pos.toNat / 512) dl dbs dl' dbs' →
      Ready e pos (s'.view d e) il dl' ibs dbs' bytes → Sure r Q (f ()) g s') :
    Sure r Q (Lfs.dataBlock d >>= f) g s := by
  have hfile := hl.holds.file
  have hlpos : (s.lfltab d).lfpos = pos := hl.lfpos
  have hplace : 16 * (pos.toNat / 8192) + (dindex pos).val = pos.toNat / 512 := by
    rw [toNat_dindex]
    omega
  have hlen : dbs.length = pos.toNat / 512 := by
    have hge := List.getElem?_eq_none_iff.mp hopt
    have hroom := hfile.room
    omega
  have hdba := hl.ibDba
  rw [hopt] at hdba
  unfold Lfs.dataBlock
  rw [bind_assoc_eq, sure_get, hlpos]
  change Sure r Q ((if (s.lfltab d).lfiblock.ibDba (dindex pos) = LF_DNULL
    then _ else _) >>= f) g s
  rw [if_pos (show _ = LF_DNULL from hdba), bind_assoc_eq]
  apply hr.lfdballoc hl.holds.pool (fun b hb => (hs.freeData hb).ne_null)
    fun hdl => hstop hdl (by omega)
  intro b dl' c s₁ hdl hs₁
  have hpool := hl.holds.pool.dirWritten hs c
  rw [hdl] at hs hpool
  have hnew : b ∉ dbs := fun hm =>
    (List.nodup_append.mp hs.dnodup).2.2 b (by simp) b hm rfl
  rw [bind_assoc_eq]
  apply hr.modify (within_setBlk rfl)
  apply hr.modify (within_setBlk rfl)
  apply hf _ dl' (dbs ++ [b]) (Or.inr ⟨b, hdl, rfl, hlen⟩)
  rw [view_setBlk, view_setBlk, hs₁]
  exact { holds := { file := (hfile.dirWritten hs c).appendData hl.clean hs.ibs_nodup hnew
                      hl.here (by rw [hplace]; exact hlen) _
                     pool := hpool.takeData }
          here := by
            rw [List.getElem?_append_right (by omega)]
            simp [hlen]
          lfpos := hl.lfpos
          entry := hl.entry }

/-- The data block of the position is read unless it is the one in memory. -/
theorem Inside.loadData {b : UInt32} (hopt : dbs[pos.toNat / 512]? = some b)
    (hf : ∀ s', Ready e pos (s'.view d e) il dl ibs dbs bytes → Sure r Q (f ()) g s') :
    Sure r Q (Lfs.dataBlock d >>= f) g s := by
  have hfile := hl.holds.file
  have hlpos : (s.lfltab d).lfpos = pos := hl.lfpos
  have hmem : b ∈ dbs := List.mem_of_getElem? hopt
  have hdba := hl.ibDba
  rw [hopt, Option.getD_some] at hdba
  have hne : (s.lfltab d).lfiblock.ibDba (dindex pos) ≠ LF_DNULL := by
    rw [hdba]
    exact (hs.isData hmem).ne_null
  -- what is left to do once the block is in memory
  have hfinish : ∀ s₁ : Lfs, Located e pos
      { s₁.view d e with blk := { s₁.lfltab d with lfdnum := b } } (pos.toNat / 8192)
      il dl ibs dbs bytes →
      Sure r Q (Prog.modify (fun s => s.setBlk d fun blk => { blk with lfdnum := b }) >>= f)
        g s₁ := by
    intro s₁ hl₁
    apply hr.modify (within_setBlk rfl)
    apply hf
    rw [view_setBlk]
    exact { holds := hl₁.holds
            here := hopt
            lfpos := hl₁.lfpos
            entry := hl₁.entry }
  unfold Lfs.dataBlock
  rw [bind_assoc_eq, sure_get, hlpos]
  change Sure r Q ((if (s.lfltab d).lfiblock.ibDba (dindex pos) = LF_DNULL
    then _ else _) >>= f) g s
  rw [if_neg hne, hdba, bind_assoc_eq]
  apply sure_when
  · intro _
    rw [bind_assoc_eq]
    apply hr.readBlock
    intro s₁ hs₁
    apply hr.modify (within_setBlk rfl)
    apply hfinish
    rw [view_setBlk, hs₁]
    have hclean : (s.lfltab d).lfdbdirty = false := hl.clean
    have hload := hfile.loadData hclean hmem
    have hblk₁ : s₁.lfltab d = { s.lfltab d with lfdblock := s.disk b.toNat } :=
      congrArg View.blk hs₁
    have hblk : (s₁.setBlk d fun blk => { blk with lfdbdirty := false }).lfltab d
        = { s.lfltab d with lfdblock := s.disk b.toNat } := by
      change upd s₁.lfltab d _ d = _
      rw [upd_self, hblk₁]
      change ({ s.lfltab d with lfdblock := s.disk b.toNat, lfdbdirty := false } : Lflcblk) = _
      rw [← hclean]
    rw [hblk]
    exact { holds := { file := hload
                       pool := hl.holds.pool }
            here := hl.here
            le := hl.le
            clean := hl.clean
            iclean := hl.iclean
            lfpos := hl.lfpos
            entry := hl.entry }
  · intro hsame
    have heq : (s.lfltab d).lfdnum = b := by
      have := of_decide_eq_false hsame
      exact (not_not.mp this).symm
    apply hfinish
    rw [← heq]
    exact hl

theorem Inside.dataBlock (hpos : pos.toNat ≤ bytes.length)
    (hstop : dl = [] → dbs.length ≤ pos.toNat / 512 → r.stops)
    (hf : ∀ s' dl' dbs', Grown (pos.toNat / 512) dl dbs dl' dbs' →
      Ready e pos (s'.view d e) il dl' ibs dbs' bytes → Sure r Q (f ()) g s') :
    Sure r Q (Lfs.dataBlock d >>= f) g s := by
  cases hopt : dbs[pos.toNat / 512]? with
  | none => exact hr.newData hs hl hopt hpos hstop hf
  | some b => exact hr.loadData hs hl hopt fun s' => hf s' dl dbs (Or.inl ⟨rfl, rfl⟩)

end

/-!
## The whole set-up
-/

theorem Grown.shares_index {k : Nat} {il' ibs' : List UInt32} (h : Grown k il ibs il' ibs')
    (hs : Shares geo ownI ownD il dl ibs dbs) : Shares geo ownI ownD il' dl ibs' dbs := by
  rcases h with ⟨rfl, rfl⟩ | ⟨a, rfl, rfl, _⟩
  · exact hs
  · exact hs.takeIndex

theorem Grown.shares_data {k : Nat} {dl' dbs' : List UInt32} (h : Grown k dl dbs dl' dbs')
    (hs : Shares geo ownI ownD il dl ibs dbs) : Shares geo ownI ownD il dl' ibs dbs' := by
  rcases h with ⟨rfl, rfl⟩ | ⟨a, rfl, rfl, _⟩
  · exact hs
  · exact hs.takeData

/-- A file that has the blocks of a position up to its end has the blocks that it needs
when the position is filled. -/
theorem sized_of_grown {p n : Nat} {il' dl' ibs' dbs' : List UInt32} (hsize : Sized ibs dbs n)
    (hI : Grown (p / 8192) il ibs il' ibs') (hD : Grown (p / 512) dl dbs dl' dbs') (hp : p ≤ n)
    (hi : p / 8192 < ibs'.length) (hd : p / 512 < dbs'.length) :
    Sized ibs' dbs' (max n (p + 1)) where
  data := by
    have hdata := hsize.data
    rcases hD with ⟨_, rfl⟩ | ⟨b, _, rfl, hlen⟩
    · omega
    · rw [List.length_append, List.length_singleton]
      omega
  index := by
    have hindex := hsize.index
    rcases hI with ⟨_, rfl⟩ | ⟨a, _, rfl, hlen⟩
    · omega
    · rw [List.length_append, List.length_singleton]
      omega

/-- The walk along the index blocks ends at the one of the position. -/
theorem Inside.walk (hr : Inside r g geo d e ownI ownD) {pos : UInt32} {k : Nat}
    {il' ibs' : List UInt32} (hs : Shares geo ownI ownD il dl ibs dbs)
    (hg : Grown (pos.toNat / 8192) il ibs il' ibs') (hk : k < pos.toNat / 8192 → ibs' = ibs)
    (hl : Located e pos (s.view d e) k il' dl ibs' dbs bytes)
    (hsize : Sized ibs dbs bytes.length) (hpos : pos.toNat ≤ bytes.length)
    (hstop : il = [] → ibs.length ≤ pos.toNat / 8192 → r.stops) {f : Unit → Prog Lfs α}
    (hf : ∀ t il' ibs', Grown (pos.toNat / 8192) il ibs il' ibs' →
      Located e pos (t.view d e) (pos.toNat / 8192) il' dl ibs' dbs bytes →
      Sure r Q (f ()) g t) :
    Sure r Q (Prog.loop (fun _ => Lfs.nextIblock d) chainFuel () >>= f) g s := by
  refine Sure.bind (P := fun _ g' t => g' = g ∧ ∃ il' ibs',
    Grown (pos.toNat / 8192) il ibs il' ibs' ∧
    Located e pos (t.view d e) (pos.toNat / 8192) il' dl ibs' dbs bytes) ?_ ?_
  · refine Sure.loop (I := fun m _ g' t => g' = g ∧ ∃ k il' ibs', m = pos.toNat / 8192 - k ∧
      Grown (pos.toNat / 8192) il ibs il' ibs' ∧ (k < pos.toNat / 8192 → ibs' = ibs) ∧
      Located e pos (t.view d e) k il' dl ibs' dbs bytes) (k := pos.toNat / 8192 - k) ?_
      ⟨rfl, k, il', ibs', rfl, hg, hk, hl⟩ ?_
    · have := pos.toNat_lt
      unfold chainFuel
      omega
    · rintro m _ g' t ⟨hgg, k', il', ibs', rfl, hg', hk', hl'⟩
      rw [hgg]
      have hs' := hg'.shares_index hs
      have hfull : dbs.length ≤ 16 * ibs'.length := by
        have h1 := hsize.data
        have h2 := hsize.index
        have h3 : ibs.length ≤ ibs'.length := by
          rcases hg' with ⟨_, rfl⟩ | ⟨a, _, rfl, _⟩
          · exact Nat.le_refl _
          · simp
        omega
      rw [show Lfs.nextIblock d = Lfs.nextIblock d >>= pure from (bind_pure_eq _).symm]
      apply hr.nextIblock hs' hl' hfull hpos
      · intro hil hle
        rcases hg' with ⟨rfl, rfl⟩ | ⟨a, _, rfl, hlen⟩
        · exact hstop hil hle
        · rw [List.length_append, List.length_singleton] at hle
          omega
      · intro hkK
        rw [hkK] at hl'
        exact ⟨rfl, il', ibs', hg', hl'⟩
      · intro t' il'' ibs'' hg'' hk'' hl''
        have hklt : k' < pos.toNat / 8192 := hl''.le
        have hsame : il' = il ∧ ibs' = ibs := by
          rcases hg' with hg' | ⟨a, _, hibs, _⟩
          · exact hg'
          · have := hk' hklt
            rw [hibs] at this
            simp at this
        rw [hsame.1, hsame.2] at hg''
        rw [hsame.2] at hk''
        exact ⟨pos.toNat / 8192 - (k' + 1), by omega, rfl, k' + 1, il'', ibs'', rfl, hg'', hk'',
          hl''⟩
  · rintro _ g' t ⟨hgg, il₃, ibs₃, hg₃, hl₃⟩
    rw [hgg]
    exact hf t il₃ ibs₃ hg₃ hl₃

/-- With the directory's mutex, {lit}`lfsetup` brings the blocks of the position into
memory. -/
theorem Inside.setupBlocks (hr : Inside r g geo d e ownI ownD)
    (hs : Shares geo ownI ownD il dl ibs dbs) (hh : Holds (s.view d e) il dl ibs dbs bytes)
    (hused : (s.lfltab d).lfstate = .used) (hentry : (s.lfltab d).lfdirptr = e)
    (hsize : Sized ibs dbs bytes.length) {pos : UInt32} (hlfpos : (s.lfltab d).lfpos = pos)
    (hpos : pos.toNat ≤ bytes.length)
    (hstopI : il = [] → ibs.length ≤ pos.toNat / 8192 → r.stops)
    (hstopD : dl = [] → dbs.length ≤ pos.toNat / 512 → r.stops)
    {f : Unit → Prog Lfs α}
    (hf : ∀ s' il' dl' ibs' dbs', Ready e pos (s'.view d e) il' dl' ibs' dbs' bytes →
      Shares geo ownI ownD il' dl' ibs' dbs' →
      Sized ibs' dbs' (max bytes.length (pos.toNat + 1)) →
      (s'.lfltab d).lfbyte = pos.toNat % 512 → Sure r Q (f ()) g s') :
    Sure r Q (Lfs.setupBlocks d >>= f) g s := by
  unfold Lfs.setupBlocks
  rw [bind_assoc_eq, sure_get, bind_assoc_eq]
  apply hr.flushWhen hs hh hused
  intro s₁ hh₁ hb₁
  have hpos₁ : (s₁.lfltab d).lfpos = pos := by
    rw [hb₁]
    exact hlfpos
  rw [bind_assoc_eq]
  apply hr.firstIblock hs hh₁ (by rw [hb₁]; rfl) (by rw [hb₁]; exact hentry) hsize
    (by rw [hpos₁]; exact hpos) fun hil hibs => hstopI hil (by rw [hibs]; exact Nat.zero_le _)
  intro s₂ k il₂ ibs₂ hg₂ hk₂ hl₂
  rw [hpos₁] at hg₂ hk₂ hl₂
  rw [bind_assoc_eq]
  apply hr.walk hs hg₂ hk₂ hl₂ hsize hpos hstopI
  intro s₃ il₃ ibs₃ hg₃ hl₃
  have hs₃ := hg₃.shares_index hs
  rw [bind_assoc_eq]
  apply hr.dataBlock hs₃ hl₃ hpos hstopD
  intro s₄ dl₄ dbs₄ hg₄ hready
  apply hr.modify (within_setBlk rfl)
  apply hf _ il₃ dl₄ ibs₃ dbs₄ ?_ (hg₄.shares_data hs₃) ?_ ?_
  · rw [view_setBlk]
    exact { holds := { file := hready.holds.file.congrBlk rfl
                       pool := hready.holds.pool }
            here := hready.here
            lfpos := hready.lfpos
            entry := hready.entry }
  · exact sized_of_grown hsize hg₃ hg₄ hpos (List.getElem?_eq_some_iff.mp hl₃.here).1
      (List.getElem?_eq_some_iff.mp hready.here).1
  · change (upd s₄.lfltab d _ d).lfbyte = _
    rw [upd_self]
    change ((s₄.lfltab d).lfpos &&& LF_DMASK).toNat = _
    rw [toNat_lfbyte, show (s₄.lfltab d).lfpos = pos from hready.lfpos]

end

end Lfs
end BbbXinu
