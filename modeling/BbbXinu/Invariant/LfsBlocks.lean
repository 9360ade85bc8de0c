import BbbXinu.Invariant.LfsFile
import BbbXinu.Invariant.LfsSection
import BbbXinu.Lib.LinkedLists

/-!
# Allocating and flushing blocks

What the allocation of blocks, the flush and {lit}`lfsetup` do to a file and to
the free lists, for a process that works on the file with the directory's mutex.
-/

namespace BbbXinu
namespace Lfs

open Layouts Prog

/-- The two free lists, in memory and on the disk. -/
structure Pool (disk : Nat → Sector) (ifree dfree : UInt32) (il dl : List UInt32) : Prop where
  index : Chain (fun a => (iblkAt disk a).ibNext) LF_INULL ifree il
  data : Chain (dlink disk) LF_DNULL dfree dl

/-- The blocks of one file and of the free lists are the ones that the process may work
on, and none stands twice. -/
structure Shares (geo : Geometry) (ownI ownD : Set UInt32) (il dl ibs dbs : List UInt32) :
    Prop where
  inodup : (il ++ ibs).Nodup
  dnodup : (dl ++ dbs).Nodup
  iown : ∀ a, a ∈ ownI ↔ a ∈ il ∨ a ∈ ibs
  down : ∀ b, b ∈ ownD ↔ b ∈ dl ∨ b ∈ dbs
  index : ∀ a, a ∈ ownI → geo.IsIndex a
  data : ∀ b, b ∈ ownD → geo.IsData b

section

variable {geo : Geometry} {ownI ownD : Set UInt32} {il dl ibs dbs : List UInt32} {a b : UInt32}

namespace Shares

variable (h : Shares geo ownI ownD il dl ibs dbs)

include h

theorem isIndex (ha : a ∈ ibs) : geo.IsIndex a := h.index a ((h.iown a).mpr (Or.inr ha))

theorem isData (hb : b ∈ dbs) : geo.IsData b := h.data b ((h.down b).mpr (Or.inr hb))

theorem freeIndex (ha : a ∈ il) : geo.IsIndex a := h.index a ((h.iown a).mpr (Or.inl ha))

theorem freeData (hb : b ∈ dl) : geo.IsData b := h.data b ((h.down b).mpr (Or.inl hb))

theorem null_notMem_ibs : LF_INULL ∉ ibs := fun hm => (h.isIndex hm).ne_null rfl

theorem null_notMem_dbs : LF_DNULL ∉ dbs := fun hm => (h.isData hm).ne_null rfl

theorem ibs_nodup : ibs.Nodup := (List.nodup_append.mp h.inodup).2.1

theorem dbs_nodup : dbs.Nodup := (List.nodup_append.mp h.dnodup).2.1

/-- No data block of the file lies in a sector of index blocks. -/
theorem sector_ne (ha : a ∈ ibs) (hb : b ∈ dbs) : b.toNat ≠ ib2sect a := by
  have h1 := (h.isIndex ha).sect
  have h2 := (h.isData hb).1
  omega

end Shares

/-- A free index block goes to the end of the file. -/
theorem Shares.takeIndex (h : Shares geo ownI ownD (a :: il) dl ibs dbs) :
    Shares geo ownI ownD il dl (ibs ++ [a]) dbs where
  inodup := by
    have hp : (il ++ (ibs ++ [a])).Perm (a :: il ++ ibs) := by
      rw [← List.append_assoc]
      exact List.perm_append_comm
    exact hp.nodup_iff.mpr h.inodup
  dnodup := h.dnodup
  iown x := by
    rw [h.iown x]
    simp only [List.mem_cons, List.mem_append, List.not_mem_nil, or_false]
    tauto
  down := h.down
  index := h.index
  data := h.data

theorem Shares.takeData (h : Shares geo ownI ownD il (b :: dl) ibs dbs) :
    Shares geo ownI ownD il dl ibs (dbs ++ [b]) where
  inodup := h.inodup
  dnodup := by
    have hp : (dl ++ (dbs ++ [b])).Perm (b :: dl ++ dbs) := by
      rw [← List.append_assoc]
      exact List.perm_append_comm
    exact hp.nodup_iff.mpr h.dnodup
  iown := h.iown
  down x := by
    rw [h.down x]
    simp only [List.mem_cons, List.mem_append, List.not_mem_nil, or_false]
    tauto
  index := h.index
  data := h.data

namespace Pool

variable {disk disk' : Nat → Sector} {ifree dfree : UInt32}

theorem congr (h : Pool disk ifree dfree il dl) (hi : ∀ a ∈ il, iblkAt disk' a = iblkAt disk a)
    (hd : ∀ b ∈ dl, disk' b.toNat = disk b.toNat) : Pool disk' ifree dfree il dl where
  index := h.index.congr fun a ha => by rw [hi a ha]
  data := h.data.congr fun b hb => by
    unfold dlink
    rw [hd b hb]

end Pool

/-!
## Frames
-/

section Frames

variable {disk : Nat → Sector} {ifree dfree : UInt32} {ent : Ldentry} {blk : Lflcblk}
  {bytes : List UInt8}

/-- Writing the directory leaves the free lists. -/
theorem Pool.dirWritten (h : Pool disk ifree dfree il dl)
    (hs : Shares geo ownI ownD il dl ibs dbs) (c : Sector) :
    Pool (upd disk LF_AREA_DIR c) ifree dfree il dl := by
  apply h.congr
  · intro a ha
    have h1 := (hs.freeIndex ha).sect
    exact iblkAt_upd (by unfold LF_AREA_DIR; omega)
  · intro b hb
    have h1 := (hs.freeData hb).1
    exact upd_of_ne (by unfold LF_AREA_DIR; omega)

/-- Writing the directory leaves the file. -/
theorem FileOk.dirWritten (h : FileOk disk ent blk ibs dbs bytes)
    (hs : Shares geo ownI ownD il dl ibs dbs) (c : Sector) :
    FileOk (upd disk LF_AREA_DIR c) ent blk ibs dbs bytes := by
  apply h.congr
  · intro a ha
    have h1 := (hs.isIndex ha).sect
    exact iblkAt_upd (by unfold LF_AREA_DIR; omega)
  · intro b hb
    have h1 := (hs.isData hb).1
    exact upd_of_ne (by unfold LF_AREA_DIR; omega)

/-- The list of free index blocks goes on behind its first block. -/
theorem Pool.takeIndex (h : Pool disk ifree dfree (a :: il) dl) :
    Pool disk (il.headD LF_INULL) dfree il dl where
  index := by
    have htail := h.index.2
    rw [← htail.head_eq]
    exact htail
  data := h.data

theorem Pool.takeData (h : Pool disk ifree dfree il (b :: dl)) :
    Pool disk ifree (dl.headD LF_DNULL) il dl where
  index := h.index
  data := by
    have htail := h.data.2
    rw [← htail.head_eq]
    exact htail

/-- Writing an index block of the file leaves the free lists. -/
theorem Pool.indexWritten (h : Pool disk ifree dfree il dl)
    (hs : Shares geo ownI ownD il dl ibs dbs) (ha : a ∈ ibs) (ib : Lfiblk) :
    Pool (putIblk disk a ib) ifree dfree il dl := by
  apply h.congr
  · intro x hx
    exact iblkAt_putIblk_of_ne ((List.nodup_append.mp hs.inodup).2.2 x hx a ha)
  · intro b hb
    have h1 := (hs.isIndex ha).sect
    have h2 := (hs.freeData hb).1
    exact putIblk_of_ne (by omega)

/-- Writing a data block of the file leaves the free lists. -/
theorem Pool.dataWritten (h : Pool disk ifree dfree il dl)
    (hs : Shares geo ownI ownD il dl ibs dbs) (hb : b ∈ dbs) (c : Sector) :
    Pool (upd disk b.toNat c) ifree dfree il dl := by
  apply h.congr
  · intro a ha
    have h1 := (hs.freeIndex ha).sect
    have h2 := (hs.isData hb).1
    exact iblkAt_upd (by omega)
  · intro x hx
    refine upd_of_ne ?_
    intro heq
    exact (List.nodup_append.mp hs.dnodup).2.2 x hx b hb (UInt32.toNat_inj.mp heq)

end Frames

end

/-!
## Allocation
-/

section Allocation

variable {γ α : Type} {r : Rules Lfs γ} {g : γ} {geo : Geometry} {d : Fin Nlfl}
  {e : Fin LF_NUM_DIR_ENT} {ownI ownD : Set UInt32} {Q : α → γ → Lfs → Prop} {s : Lfs}
  {il dl : List UInt32}

theorem Inside.lfiballoc (hr : Inside r g geo d e ownI ownD) {f : UInt32 → Prog Lfs α}
    (hp : Pool s.disk s.lfDir.lfdIfree s.lfDir.lfdDfree il dl)
    (hnull : ∀ a ∈ il, a ≠ LF_INULL) (hstop : il = [] → r.stops)
    (hf : ∀ a il' c s', il = a :: il' →
      s'.view d e = { s.view d e with disk := upd s.disk LF_AREA_DIR c,
                                      ifree := il'.headD LF_INULL } →
      Sure r Q (f a) g s') :
    Sure r Q (Lfs.lfiballoc >>= f) g s := by
  unfold Lfs.lfiballoc
  rw [bind_assoc_eq, sure_get]
  change Sure r Q ((if s.lfDir.lfdIfree = LF_INULL then halt else _) >>= f) g s
  cases hil : il with
  | nil =>
      rw [hil] at hp
      rw [if_pos (show s.lfDir.lfdIfree = LF_INULL from hp.index)]
      exact hstop hil
  | cons a il' =>
      rw [hil] at hp
      have hhead : s.lfDir.lfdIfree = a := hp.index.1
      have hne : s.lfDir.lfdIfree ≠ LF_INULL := by
        rw [hhead]
        exact hnull a (by simp [hil])
      rw [if_neg hne, hhead, bind_assoc_eq]
      apply hr.lfibget
      intro s₁ hs₁
      rw [bind_assoc_eq]
      apply hr.modify (within_setDir rfl rfl)
      rw [bind_assoc_eq]
      apply hr.writeDir
      intro s₂ c hs₂
      rw [bind_assoc_eq]
      apply hr.modify within_setDirdirty
      apply hf a il' c _ hil
      have hdisk : s₁.disk = s.disk := congrArg View.disk hs₁
      have hnext : (iblkAt s.disk a).ibNext = il'.headD LF_INULL := hp.index.2.head_eq
      rw [view_setDirdirty, hs₂, ← hnext]
      change { s₁.view d e with disk := upd s₁.disk LF_AREA_DIR c,
                                ifree := (iblkAt s.disk a).ibNext } = _
      rw [hs₁, hdisk]

theorem Inside.lfdballoc (hr : Inside r g geo d e ownI ownD) {f : UInt32 → Prog Lfs α}
    (hp : Pool s.disk s.lfDir.lfdIfree s.lfDir.lfdDfree il dl)
    (hnull : ∀ b ∈ dl, b ≠ LF_DNULL) (hstop : dl = [] → r.stops)
    (hf : ∀ b dl' c s', dl = b :: dl' →
      s'.view d e = { s.view d e with
        disk := upd s.disk LF_AREA_DIR c, dfree := dl'.headD LF_DNULL,
        blk := { s.lfltab d with lfdblock := fun _ => DFILL } } →
      Sure r Q (f b) g s') :
    Sure r Q (Lfs.lfdballoc d >>= f) g s := by
  unfold Lfs.lfdballoc
  rw [bind_assoc_eq, sure_get]
  change Sure r Q ((if s.lfDir.lfdDfree = LF_DNULL then halt else _) >>= f) g s
  cases hdl : dl with
  | nil =>
      rw [hdl] at hp
      rw [if_pos (show s.lfDir.lfdDfree = LF_DNULL from hp.data)]
      exact hstop hdl
  | cons b dl' =>
      rw [hdl] at hp
      have hhead : s.lfDir.lfdDfree = b := hp.data.1
      have hne : s.lfDir.lfdDfree ≠ LF_DNULL := by
        rw [hhead]
        exact hnull b (by simp [hdl])
      rw [if_neg hne, hhead, bind_assoc_eq]
      apply hr.readBlock
      intro s₁ hs₁
      rw [bind_assoc_eq]
      apply hr.modify (within_setDir rfl rfl)
      rw [bind_assoc_eq]
      apply hr.writeDir
      intro s₂ c hs₂
      rw [bind_assoc_eq]
      apply hr.modify within_setDirdirty
      rw [bind_assoc_eq]
      apply hr.modify (within_setBlk rfl)
      apply hf b dl' c _ hdl
      have hdisk : s₁.disk = s.disk := congrArg View.disk hs₁
      have hblk : s₁.lfltab d = { s.lfltab d with lfdblock := s.disk b.toNat } :=
        congrArg View.blk hs₁
      have hnext : (Lfdbfree.layout.symm (s₁.lfltab d).lfdblock).lfNextdb
          = dl'.headD LF_DNULL := by
        rw [hblk]
        exact hp.data.2.head_eq
      rw [view_setBlk, view_setDirdirty, hs₂]
      change { s₁.view d e with
        disk := upd s₁.disk LF_AREA_DIR c,
        dfree := (Lfdbfree.layout.symm (s₁.lfltab d).lfdblock).lfNextdb,
        blk := { s₁.lfltab d with lfdblock := fun _ => DFILL } } = _
      rw [hnext, hs₁, hdisk, hblk]

end Allocation

end Lfs
end BbbXinu
