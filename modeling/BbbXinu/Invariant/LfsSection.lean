import BbbXinu.Invariant.LfsDisk

/-!
# Working on one file with the directory's mutex

Between the wait for the directory's mutex and its signal a process works on the
file of one control block: on that block, on the entry of the file, on the free
lists, and on the blocks that are free or belong to the file.  {lit}`Within` says
that a change stays inside these bounds.  {lit}`Inside` says of rules that they
allow such changes and that the others leave all of this alone.
-/

namespace BbbXinu
namespace Lfs

open Layouts Prog

/-- What a process reads while it works on one file. -/
structure View where
  disk : Nat → Sector
  ifree : UInt32
  dfree : UInt32
  ent : Ldentry
  blk : Lflcblk

def view (d : Fin Nlfl) (e : Fin LF_NUM_DIR_ENT) (s : Lfs) : View :=
  { disk := s.disk, ifree := s.lfDir.lfdIfree, dfree := s.lfDir.lfdDfree,
    ent := s.lfDir.lfdFiles e, blk := s.lfltab d }

/-- The fields of a control block that only opening and closing change, and its mutex. -/
def fixed (b : Lflcblk) :
    EntryState × Int × Nat × Fin LF_NUM_DIR_ENT × UInt32 × (Fin LF_NAME_LEN → UInt8) :=
  (b.lfstate, b.lfdev, b.lfmutex, b.lfdirptr, b.lfmode, b.lfname)

/-- A change that stays with one control block, one entry, the free lists, and the given
index and data blocks. -/
structure Within (geo : Geometry) (d : Fin Nlfl) (e : Fin LF_NUM_DIR_ENT)
    (ownI ownD : Set UInt32) (s s' : Lfs) : Prop where
  mutex : s'.lfMutex = s.lfMutex
  present : s'.lfDirpresent = s.lfDirpresent
  nfiles : s'.lfDir.lfdNfiles = s.lfDir.lfdNfiles
  blks : ∀ d', d' ≠ d → s'.lfltab d' = s.lfltab d'
  fixed : fixed (s'.lfltab d) = fixed (s.lfltab d)
  ents : ∀ e', e' ≠ e → s'.lfDir.lfdFiles e' = s.lfDir.lfdFiles e'
  name : (s'.lfDir.lfdFiles e).ldName = (s.lfDir.lfdFiles e).ldName
  index : ∀ a, geo.IsIndex a → a ∉ ownI → iblkAt s'.disk a = iblkAt s.disk a
  data : ∀ b, geo.IsData b → b ∉ ownD → s'.disk b.toNat = s.disk b.toNat

/-- Rules under which a process works on one file with the directory's mutex. -/
structure Inside {γ : Type} (r : Rules Lfs γ) (g : γ) (geo : Geometry) (d : Fin Nlfl)
    (e : Fin LF_NUM_DIR_ENT) (ownI ownD : Set UInt32) : Prop where
  rely : ∀ s s', r.rely g s s' → s'.view d e = s.view d e
  guar : ∀ s s', Within geo d e ownI ownD s s' → r.guar g s s'
  mark : ∀ s s', Within geo d e ownI ownD s s' → r.mark g s s' = g

section

variable {geo : Geometry} {d : Fin Nlfl} {e : Fin LF_NUM_DIR_ENT} {ownI ownD : Set UInt32}
  {s s' t : Lfs}

/-!
## Changes that stay inside
-/

theorem Within.refl (s : Lfs) : Within geo d e ownI ownD s s where
  mutex := rfl
  present := rfl
  nfiles := rfl
  blks _ _ := rfl
  fixed := rfl
  ents _ _ := rfl
  name := rfl
  index _ _ _ := rfl
  data _ _ _ := rfl

theorem Within.trans (h : Within geo d e ownI ownD s s') (h' : Within geo d e ownI ownD s' t) :
    Within geo d e ownI ownD s t where
  mutex := h'.mutex.trans h.mutex
  present := h'.present.trans h.present
  nfiles := h'.nfiles.trans h.nfiles
  blks d' hd := (h'.blks d' hd).trans (h.blks d' hd)
  fixed := h'.fixed.trans h.fixed
  ents e' he := (h'.ents e' he).trans (h.ents e' he)
  name := h'.name.trans h.name
  index a ha hown := (h'.index a ha hown).trans (h.index a ha hown)
  data b hb hown := (h'.data b hb hown).trans (h.data b hb hown)

theorem within_setBlk {u : Lflcblk → Lflcblk}
    (hu : Lfs.fixed (u (s.lfltab d)) = Lfs.fixed (s.lfltab d)) :
    Within geo d e ownI ownD s (s.setBlk d u) where
  mutex := rfl
  present := rfl
  nfiles := rfl
  blks d' hd := upd_of_ne hd
  fixed := by
    change Lfs.fixed (upd s.lfltab d (u (s.lfltab d)) d) = _
    rw [upd_self, hu]
  ents _ _ := rfl
  name := rfl
  index _ _ _ := rfl
  data _ _ _ := rfl

theorem within_setEntry {u : Ldentry → Ldentry}
    (hu : (u (s.lfDir.lfdFiles e)).ldName = (s.lfDir.lfdFiles e).ldName) :
    Within geo d e ownI ownD s (s.setEntry e u) where
  mutex := rfl
  present := rfl
  nfiles := rfl
  blks _ _ := rfl
  fixed := rfl
  ents e' he := upd_of_ne he
  name := by
    change (upd s.lfDir.lfdFiles e (u (s.lfDir.lfdFiles e)) e).ldName = _
    rw [upd_self, hu]
  index _ _ _ := rfl
  data _ _ _ := rfl

theorem within_setDir {u : Lfdir → Lfdir} (hn : (u s.lfDir).lfdNfiles = s.lfDir.lfdNfiles)
    (hf : (u s.lfDir).lfdFiles = s.lfDir.lfdFiles) :
    Within geo d e ownI ownD s (s.setDir u) where
  mutex := rfl
  present := rfl
  nfiles := hn
  blks _ _ := rfl
  fixed := rfl
  ents e' _ := congrFun hf e'
  name := congrArg Ldentry.ldName (congrFun hf e)
  index _ _ _ := rfl
  data _ _ _ := rfl

theorem within_setDirdirty {b : Bool} : Within geo d e ownI ownD s (s.setDirdirty b) where
  mutex := rfl
  present := rfl
  nfiles := rfl
  blks _ _ := rfl
  fixed := rfl
  ents _ _ := rfl
  name := rfl
  index _ _ _ := rfl
  data _ _ _ := rfl

theorem within_disk {disk : Nat → Sector}
    (hi : ∀ a, geo.IsIndex a → a ∉ ownI → iblkAt disk a = iblkAt s.disk a)
    (hd : ∀ b, geo.IsData b → b ∉ ownD → disk b.toNat = s.disk b.toNat) :
    Within geo d e ownI ownD s { s with disk := disk } where
  mutex := rfl
  present := rfl
  nfiles := rfl
  blks _ _ := rfl
  fixed := rfl
  ents _ _ := rfl
  name := rfl
  index := hi
  data := hd

theorem within_stack {f : Nat → Fin 508 → UInt8} :
    Within geo d e ownI ownD s { s with stack := f } where
  mutex := rfl
  present := rfl
  nfiles := rfl
  blks _ _ := rfl
  fixed := rfl
  ents _ _ := rfl
  name := rfl
  index _ _ _ := rfl
  data _ _ _ := rfl

/-!
## What a change does to the view
-/

@[simp] theorem lfltab_setBlk {u : Lflcblk → Lflcblk} :
    (s.setBlk d u).lfltab d = u (s.lfltab d) := by
  unfold setBlk
  simp only [upd_self]

@[simp] theorem view_setBlk {u : Lflcblk → Lflcblk} :
    (s.setBlk d u).view d e = { s.view d e with blk := u (s.view d e).blk } := by
  unfold view setBlk
  simp only [upd_self]

@[simp] theorem view_setEntry {u : Ldentry → Ldentry} :
    (s.setEntry e u).view d e = { s.view d e with ent := u (s.view d e).ent } := by
  unfold view setEntry setDir
  simp only [upd_self]

@[simp] theorem view_setDirdirty {b : Bool} : (s.setDirdirty b).view d e = s.view d e := rfl

@[simp] theorem view_setDisk {blk : Nat} {c : Sector} :
    (s.setDisk blk c).view d e = { s.view d e with disk := upd (s.view d e).disk blk c } := rfl

end

/-!
## The primitives
-/

section Primitives

variable {γ α : Type} {r : Rules Lfs γ} {g : γ} {geo : Geometry} {d : Fin Nlfl}
  {e : Fin LF_NUM_DIR_ENT} {ownI ownD : Set UInt32} {Q : α → γ → Lfs → Prop} {s : Lfs}

/-- A change that stays inside. -/
theorem Inside.modify (hr : Inside r g geo d e ownI ownD) {u : Lfs → Lfs} {f : Unit → Prog Lfs α}
    (hu : Within geo d e ownI ownD s (u s)) (hf : Sure r Q (f ()) g (u s)) :
    Sure r Q (modify u >>= f) g s := by
  rw [sure_modify, hr.mark s _ hu]
  exact ⟨hr.guar s _ hu, hf⟩

/-- A transfer between disk and memory. -/
theorem Inside.transfer (hr : Inside r g geo d e ownI ownD) {u : Lfs → Lfs}
    {f : Lfs → Prog Lfs α}
    (hu : ∀ s', s'.view d e = s.view d e → Within geo d e ownI ownD s' (u s'))
    (hf : ∀ s' t, s'.view d e = s.view d e → t.view d e = (u s').view d e →
      Sure r Q (f s') g t) :
    Sure r Q (await (fun _ => true) u >>= f) g s := by
  rw [sure_await]
  intro s₁ hs₁
  have hview := hr.rely s s₁ hs₁
  have hin := hu s₁ hview
  refine ⟨fun h => absurd h (by simp), ?_⟩
  intro _
  rw [hr.mark s₁ _ hin]
  refine ⟨hr.guar s₁ _ hin, ?_⟩
  intro s₂ hs₂
  exact hf s₁ s₂ hview (hr.rely _ _ hs₂)

theorem Inside.readDisk (hr : Inside r g geo d e ownI ownD) {blk : Nat} {f : Sector → Prog Lfs α}
    (hf : ∀ s', s'.view d e = s.view d e → Sure r Q (f (s.disk blk)) g s') :
    Sure r Q (Lfs.readDisk blk >>= f) g s := by
  unfold Lfs.readDisk
  rw [bind_assoc_eq]
  apply hr.transfer
  · intro s' _
    exact Within.refl s'
  · intro s' t hs' ht
    have hdisk : s'.disk = s.disk := congrArg View.disk hs'
    change Sure r Q (f (s'.disk blk)) g t
    rw [hdisk]
    exact hf t (ht.trans hs')

theorem Inside.readBlock (hr : Inside r g geo d e ownI ownD) {blk : Nat} {f : Unit → Prog Lfs α}
    (hf : ∀ s', s'.view d e =
        { s.view d e with blk := { s.lfltab d with lfdblock := s.disk blk } } →
      Sure r Q (f ()) g s') :
    Sure r Q (readInto blk (fun b s => s.setBlk d fun c => { c with lfdblock := b }) >>= f)
      g s := by
  unfold readInto
  rw [bind_assoc_eq]
  apply hr.transfer
  · intro s' _
    exact within_setBlk rfl
  · intro s' t hs' ht
    have hdisk : s'.disk = s.disk := congrArg View.disk hs'
    have hblk : s'.lfltab d = s.lfltab d := congrArg View.blk hs'
    apply hf t
    rw [ht, view_setBlk, hs', hdisk]
    rfl

theorem Inside.writeDisk (hr : Inside r g geo d e ownI ownD) {blk : Nat} {buff : Lfs → Sector}
    {c : Sector} {f : Unit → Prog Lfs α}
    (hbuff : ∀ s', s'.view d e = s.view d e → buff s' = c)
    (hi : ∀ a, geo.IsIndex a → ib2sect a ≠ blk)
    (hd : ∀ b, geo.IsData b → b ∉ ownD → b.toNat ≠ blk)
    (hf : ∀ s', s'.view d e = { s.view d e with disk := upd s.disk blk c } →
      Sure r Q (f ()) g s') :
    Sure r Q (Lfs.writeDisk blk buff >>= f) g s := by
  unfold Lfs.writeDisk
  rw [bind_assoc_eq]
  apply hr.transfer
  · intro s' _
    apply within_disk
    · intro a ha _
      exact iblkAt_upd (hi a ha)
    · intro b hb hown
      exact upd_of_ne (hd b hb hown)
  · intro s' t hs' ht
    apply hf t
    rw [ht, view_setDisk, hbuff s' hs', hs']
    rfl

/-- Writing a data block that the process owns. -/
theorem Inside.writeBlock (hr : Inside r g geo d e ownI ownD) {b : UInt32} {buff : Lfs → Sector}
    {c : Sector} {f : Unit → Prog Lfs α} (hb : geo.IsData b) (hown : b ∈ ownD)
    (hbuff : ∀ s', s'.view d e = s.view d e → buff s' = c)
    (hf : ∀ s', s'.view d e = { s.view d e with disk := upd s.disk b.toNat c } →
      Sure r Q (f ()) g s') :
    Sure r Q (Lfs.writeDisk b.toNat buff >>= f) g s := by
  apply hr.writeDisk hbuff ?_ ?_ hf
  · intro a ha heq
    have hs := ha.sect
    have hb1 := hb.1
    omega
  · intro b' _ hb' heq
    exact hb' (UInt32.toNat_inj.mp heq ▸ hown)

/-- Writing the directory. -/
theorem Inside.writeDir (hr : Inside r g geo d e ownI ownD) {f : Unit → Prog Lfs α}
    (hf : ∀ s' c, s'.view d e = { s.view d e with disk := upd s.disk LF_AREA_DIR c } →
      Sure r Q (f ()) g s') :
    Sure r Q (Lfs.writeDir >>= f) g s := by
  unfold Lfs.writeDir Lfs.writeDisk
  rw [bind_assoc_eq]
  apply hr.transfer
  · intro s' _
    apply within_disk
    · intro a ha _
      refine iblkAt_upd ?_
      have hs := ha.sect
      unfold LF_AREA_DIR
      omega
    · intro b hb _
      refine upd_of_ne ?_
      have hb1 := hb.1
      unfold LF_AREA_DIR
      omega
  · intro s' t hs' ht
    apply hf t (Lfdir.layout s'.lfDir)
    rw [ht, view_setDisk, hs']
    rfl

theorem Inside.lfibget (hr : Inside r g geo d e ownI ownD) {a : UInt32} {f : Lfiblk → Prog Lfs α}
    (hf : ∀ s', s'.view d e = s.view d e → Sure r Q (f (iblkAt s.disk a)) g s') :
    Sure r Q (Lfs.lfibget a >>= f) g s := by
  unfold Lfs.lfibget
  rw [bind_assoc_eq]
  apply hr.readDisk
  intro s' hs'
  exact hf s' hs'

/-- Writing an index block that the process owns. -/
theorem Inside.lfibput (hr : Inside r g geo d e ownI ownD) {a : UInt32} {ibuff : Lfs → Lfiblk}
    (ib : Lfiblk) {f : Unit → Prog Lfs α} (ha : geo.IsIndex a) (hown : a ∈ ownI)
    (hbuff : ∀ s', s'.view d e = s.view d e → ibuff s' = ib)
    (hf : ∀ s', s'.view d e = { s.view d e with disk := putIblk s.disk a ib } →
      Sure r Q (f ()) g s') :
    Sure r Q (Lfs.lfibput a ibuff >>= f) g s := by
  unfold Lfs.lfibput
  rw [bind_assoc_eq]
  apply hr.readDisk
  intro s₁ hs₁
  rw [bind_assoc_eq, sure_get]
  unfold Lfs.writeDisk
  rw [bind_assoc_eq]
  have hput : ∀ s' : Lfs, s'.view d e = s₁.view d e →
      s'.setDisk (ib2sect a)
          (patch (s.disk (ib2sect a)) (ib2disp a) (Lfiblk.layout (ibuff s₁)))
        = { s' with disk := putIblk s'.disk a ib } := by
    intro s' hs'
    have hdisk : s'.disk = s.disk := congrArg View.disk (hs'.trans hs₁)
    unfold setDisk putIblk
    rw [hdisk, hbuff s₁ hs₁]
  apply hr.transfer
  · intro s' hs'
    rw [hput s' hs']
    apply within_disk
    · intro b _ hb
      exact iblkAt_putIblk_of_ne fun heq => hb (heq ▸ hown)
    · intro b hb _
      refine putIblk_of_ne ?_
      have hs := ha.sect
      have hb1 := hb.1
      omega
  · intro s' t hs' ht
    have hdisk : s'.disk = s.disk := congrArg View.disk (hs'.trans hs₁)
    apply hf t
    rw [ht, hput s' hs']
    change { s'.view d e with disk := putIblk s'.disk a ib } = _
    rw [hs', hs₁, hdisk]

end Primitives

end Lfs
end BbbXinu
