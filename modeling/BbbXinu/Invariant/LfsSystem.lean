import BbbXinu.Invariant.LfsTruncate

/-!
# The whole file system between two calls

{lit}`Sound` relates the file system to the files of the specification.  A catalog
says which blocks each file has and which are free.  Every block is free or
belongs to one file, every file is laid out as it should be, every open device
stands at its position, and nobody holds a mutex.  A call works on one file; the
last part says that this leaves the others as they are.
-/

namespace BbbXinu
namespace Lfs

open Layouts Prog

/-!
## All blocks
-/

def indexIds (geo : Geometry) : List UInt32 := (List.range (7 * geo.isects)).map UInt32.ofNat

def dataIds (geo : Geometry) : List UInt32 :=
  (List.range' (geo.isects + 1) (geo.sects - geo.isects - 1)).map UInt32.ofNat

section Ids

variable {geo : Geometry} {a : UInt32}

theorem ofNat_injOn {l : List Nat} (h : ∀ x ∈ l, x < 4294967296) (hl : l.Nodup) :
    (l.map UInt32.ofNat).Nodup := by
  apply List.Nodup.map_on ?_ hl
  intro x hx y hy heq
  have hval := congrArg UInt32.toNat heq
  rwa [UInt32.toNat_ofNat', UInt32.toNat_ofNat', Nat.mod_eq_of_lt (h x hx),
    Nat.mod_eq_of_lt (h y hy)] at hval

theorem indexIds_nodup : (indexIds geo).Nodup := by
  apply ofNat_injOn ?_ List.nodup_range
  intro x hx
  have h1 := geo.sects_lt
  have h2 := geo.isects_lt
  rw [List.mem_range] at hx
  omega

theorem dataIds_nodup : (dataIds geo).Nodup := by
  apply ofNat_injOn ?_ List.nodup_range'
  intro x hx
  have h1 := geo.sects_lt
  rw [List.mem_range'_1] at hx
  omega

theorem mem_indexIds : a ∈ indexIds geo ↔ geo.IsIndex a := by
  have h1 := geo.sects_lt
  have h2 := geo.isects_lt
  constructor
  · intro h
    rcases List.mem_map.mp h with ⟨x, hx, rfl⟩
    rw [List.mem_range] at hx
    unfold Geometry.IsIndex
    rw [UInt32.toNat_ofNat', Nat.mod_eq_of_lt (by omega)]
    exact hx
  · intro h
    exact List.mem_map.mpr ⟨a.toNat, List.mem_range.mpr h, UInt32.ofNat_toNat⟩

theorem mem_dataIds : a ∈ dataIds geo ↔ geo.IsData a := by
  have h1 := geo.sects_lt
  have h2 := geo.isects_lt
  constructor
  · intro h
    rcases List.mem_map.mp h with ⟨x, hx, rfl⟩
    rw [List.mem_range'_1] at hx
    unfold Geometry.IsData
    rw [UInt32.toNat_ofNat', Nat.mod_eq_of_lt (by omega)]
    omega
  · intro h
    have h3 := h.1
    have h4 := h.2
    exact List.mem_map.mpr ⟨a.toNat, List.mem_range'_1.mpr (by omega), UInt32.ofNat_toNat⟩

end Ids

/-!
## The invariant
-/

/-- The blocks that are free, and those of each file. -/
structure Catalog where
  il : List UInt32
  dl : List UInt32
  ibs : Fin LF_NUM_DIR_ENT → List UInt32
  dbs : Fin LF_NUM_DIR_ENT → List UInt32

namespace Catalog

variable (C : Catalog) (e : Fin LF_NUM_DIR_ENT)

/-- The index blocks that a process may work on that has the directory's mutex and one
file. -/
def ownI : Set UInt32 := { a | a ∈ C.il ∨ a ∈ C.ibs e }

def ownD : Set UInt32 := { b | b ∈ C.dl ∨ b ∈ C.dbs e }

/-- The blocks of one file and the free ones have changed. -/
def change (il dl ibs dbs : List UInt32) : Catalog :=
  { il := il, dl := dl, ibs := upd C.ibs e ibs, dbs := upd C.dbs e dbs }

end Catalog

/-- A control block that is not in use. -/
def idleBlk : Lflcblk := { lflinit 0 with lfdnum := LF_DNULL }

/-- A device on which a file is open at a position. -/
structure Live (s : Lfs) (C : Catalog) (f : FileSys) (d : Fin Nlfl) (i pos : Nat) : Prop where
  lt : i < f.files.length
  used : (s.lfltab d).lfstate = .used
  entry : (s.lfltab d).lfdirptr.val = i
  lfpos : (s.lfltab d).lfpos.toNat = pos
  le : pos ≤ (f.content i).length
  file : FileOk s.disk (s.entryOf d) (s.lfltab d) (C.ibs (s.lfltab d).lfdirptr)
    (C.dbs (s.lfltab d).lfdirptr) (f.content i)
  lfbyte : (s.lfltab d).lfbyte < LF_BLKSIZ →
    (C.dbs (s.lfltab d).lfdirptr)[pos / 512]? = some (s.lfltab d).lfdnum ∧
      (s.lfltab d).lfbyte = pos % 512
  name : (f.files[i]?).map Prod.fst = some (cname (List.ofFn (s.lfltab d).lfname))

/-- The file system between two calls, with the directory in memory. -/
structure Sound (geo : Geometry) (s : Lfs) (C : Catalog) (f : FileSys) : Prop where
  mutex : s.lfMutex = 1
  fmutex : ∀ d, (s.lfltab d).lfmutex = 1
  count : s.lfDir.lfdNfiles.toNat = f.files.length
  few : f.files.length ≤ LF_NUM_DIR_ENT
  index : Parted (indexIds geo) C.il C.ibs
  data : Parted (dataIds geo) C.dl C.dbs
  pool : Pool s.disk s.lfDir.lfdIfree s.lfDir.lfdDfree C.il C.dl
  sized : ∀ e, Sized (C.ibs e) (C.dbs e) (f.content e.val).length
  names : ∀ e : Fin LF_NUM_DIR_ENT, e.val < f.files.length →
    (f.files[e.val]?).map Prod.fst = some (cname (List.ofFn (s.lfDir.lfdFiles e).ldName))
  distinct : (f.files.map Prod.fst).Nodup
  idle : ∀ e : Fin LF_NUM_DIR_ENT, e.val < f.files.length → (∀ d p, f.opens d ≠ some (e.val, p)) →
    FileOk s.disk (s.lfDir.lfdFiles e) idleBlk (C.ibs e) (C.dbs e) (f.content e.val)
  free : ∀ d, f.opens d = none → (s.lfltab d).lfstate = .free
  live : ∀ d i pos, f.opens d = some (i, pos) → Live s C f d i pos
  apart : ∀ d d' i p p', f.opens d = some (i, p) → f.opens d' = some (i, p') → d = d'

/-!
## What a call leaves alone
-/

/-- The fields of a control block that only opening and closing change. -/
def kept (b : Lflcblk) :
    EntryState × Int × Fin LF_NUM_DIR_ENT × UInt32 × (Fin LF_NAME_LEN → UInt8) :=
  (b.lfstate, b.lfdev, b.lfdirptr, b.lfmode, b.lfname)

/-- A change that stays within bounds but for the mutexes. -/
structure Touch (geo : Geometry) (d : Fin Nlfl) (e : Fin LF_NUM_DIR_ENT) (ownI ownD : Set UInt32)
    (s s' : Lfs) : Prop where
  present : s'.lfDirpresent = s.lfDirpresent
  nfiles : s'.lfDir.lfdNfiles = s.lfDir.lfdNfiles
  blks : ∀ d', d' ≠ d → s'.lfltab d' = s.lfltab d'
  kept : kept (s'.lfltab d) = kept (s.lfltab d)
  ents : ∀ e', e' ≠ e → s'.lfDir.lfdFiles e' = s.lfDir.lfdFiles e'
  name : (s'.lfDir.lfdFiles e).ldName = (s.lfDir.lfdFiles e).ldName
  index : ∀ a, geo.IsIndex a → a ∉ ownI → iblkAt s'.disk a = iblkAt s.disk a
  data : ∀ b, geo.IsData b → b ∉ ownD → s'.disk b.toNat = s.disk b.toNat

section Touch

variable {geo : Geometry} {d : Fin Nlfl} {e : Fin LF_NUM_DIR_ENT} {ownI ownD : Set UInt32}
  {s s' t : Lfs}

theorem Within.touch (h : Within geo d e ownI ownD s s') : Touch geo d e ownI ownD s s' where
  present := h.present
  nfiles := h.nfiles
  blks := h.blks
  kept := by
    have hfixed := h.fixed
    simp only [Lfs.fixed, Prod.mk.injEq] at hfixed
    simp only [Lfs.kept, Prod.mk.injEq]
    tauto
  ents := h.ents
  name := h.name
  index := h.index
  data := h.data

theorem Touch.trans (h : Touch geo d e ownI ownD s s') (h' : Touch geo d e ownI ownD s' t) :
    Touch geo d e ownI ownD s t where
  present := h'.present.trans h.present
  nfiles := h'.nfiles.trans h.nfiles
  blks d' hd := (h'.blks d' hd).trans (h.blks d' hd)
  kept := h'.kept.trans h.kept
  ents e' he := (h'.ents e' he).trans (h.ents e' he)
  name := h'.name.trans h.name
  index a ha hown := (h'.index a ha hown).trans (h.index a ha hown)
  data b hb hown := (h'.data b hb hown).trans (h.data b hb hown)

theorem touch_setBlk {u : Lflcblk → Lflcblk}
    (hu : Lfs.kept (u (s.lfltab d)) = Lfs.kept (s.lfltab d)) :
    Touch geo d e ownI ownD s (s.setBlk d u) where
  present := rfl
  nfiles := rfl
  blks d' hd := upd_of_ne hd
  kept := by
    change Lfs.kept (upd s.lfltab d (u (s.lfltab d)) d) = _
    rw [upd_self, hu]
  ents _ _ := rfl
  name := rfl
  index _ _ _ := rfl
  data _ _ _ := rfl

theorem touch_mutex {n : Nat} : Touch geo d e ownI ownD s { s with lfMutex := n } where
  present := rfl
  nfiles := rfl
  blks _ _ := rfl
  kept := rfl
  ents _ _ := rfl
  name := rfl
  index _ _ _ := rfl
  data _ _ _ := rfl

end Touch

/-!
## Files of the specification
-/

section Files

variable {f : FileSys} {i j : Nat} {bytes : List UInt8}

theorem content_setContent_self (h : i < f.files.length) :
    (f.setContent i bytes).content i = bytes := by
  unfold FileSys.setContent FileSys.content
  simp [h]

theorem content_setContent_of_ne (h : j ≠ i) :
    (f.setContent i bytes).content j = f.content j := by
  unfold FileSys.setContent FileSys.content
  simp [Ne.symm h]

theorem length_setContent : (f.setContent i bytes).files.length = f.files.length := by
  unfold FileSys.setContent
  simp

theorem names_setContent :
    (f.setContent i bytes).files.map Prod.fst = f.files.map Prod.fst := by
  unfold FileSys.setContent
  apply List.ext_getElem?
  intro j
  simp only [List.getElem?_map, List.getElem?_modify]
  cases f.files[j]? with
  | none => rfl
  | some x =>
      by_cases h : i = j
      · simp [h]
      · simp [h]

theorem name_setContent :
    ((f.setContent i bytes).files[j]?).map Prod.fst = (f.files[j]?).map Prod.fst := by
  rw [← List.getElem?_map, ← List.getElem?_map, names_setContent]

end Files

/-!
## A call on one file
-/

section Update

variable {geo : Geometry} {s s' : Lfs} {C : Catalog} {f : FileSys} {d : Fin Nlfl} {i pos : Nat}
  {e : Fin LF_NUM_DIR_ENT}

theorem Sound.shares (h : Sound geo s C f) (e : Fin LF_NUM_DIR_ENT) :
    Shares geo (C.ownI e) (C.ownD e) C.il C.dl (C.ibs e) (C.dbs e) where
  inodup := h.index.nodup indexIds_nodup e
  dnodup := h.data.nodup dataIds_nodup e
  iown _ := Iff.rfl
  down _ := Iff.rfl
  index _ ha := mem_indexIds.mp (h.index.mem_all ha)
  data _ hb := mem_dataIds.mp (h.data.mem_all hb)

/-- Both sides of an exchange have the same members, none twice, so they are the same up to
order. -/
theorem perm_of_shares {free own free' own' : List UInt32} (hn : (free ++ own).Nodup)
    (hn' : (free' ++ own').Nodup) (h : ∀ a, a ∈ free' ∨ a ∈ own' ↔ a ∈ free ∨ a ∈ own) :
    (free' ++ own').Perm (free ++ own) := by
  rw [List.perm_ext_iff_of_nodup hn' hn]
  intro a
  rw [List.mem_append, List.mem_append]
  exact h a

/-- The file of another entry keeps its blocks on the disk. -/
theorem Sound.frame (h : Sound geo s C f) (ht : Touch geo d e (C.ownI e) (C.ownD e) s s')
    {e' : Fin LF_NUM_DIR_ENT} (he : e' ≠ e) {ent : Ldentry} {blk : Lflcblk} {bytes : List UInt8}
    (hfile : FileOk s.disk ent blk (C.ibs e') (C.dbs e') bytes) :
    FileOk s'.disk ent blk (C.ibs e') (C.dbs e') bytes := by
  apply hfile.congr
  · intro a ha
    exact ht.index a (mem_indexIds.mp (h.index.mem_all (Or.inr ha)))
      (h.index.apart indexIds_nodup he ha)
  · intro b hb
    exact ht.data b (mem_dataIds.mp (h.data.mem_all (Or.inr hb)))
      (h.data.apart dataIds_nodup he hb)

/-- A device on which another file is open keeps it. -/
theorem Sound.live_other (h : Sound geo s C f)
    (ht : Touch geo d e (C.ownI e) (C.ownD e) s s') (hi : e.val = i) (bytes : List UInt8)
    (pos' : Nat) (il dl ibs dbs : List UInt32) {d' : Fin Nlfl} {j p : Nat} (hdd : d' ≠ d)
    (hji : j ≠ i) (hl : Live s C f d' j p) :
    Live s' (C.change e il dl ibs dbs) ((f.setContent i bytes).setOpen d (some (i, pos')))
      d' j p := by
  have hee : (s.lfltab d').lfdirptr ≠ e := by
    intro heq
    apply hji
    rw [← hl.entry, heq, hi]
  have hblk : s'.lfltab d' = s.lfltab d' := ht.blks d' hdd
  exact { lt := (length_setContent (f := f)).symm ▸ hl.lt
          used := by rw [hblk]; exact hl.used
          entry := by rw [hblk]; exact hl.entry
          lfpos := by rw [hblk]; exact hl.lfpos
          le := by
            change p ≤ ((f.setContent i bytes).content j).length
            rw [content_setContent_of_ne hji]
            exact hl.le
          file := by
            unfold Lfs.entryOf
            change FileOk _ _ _ (upd C.ibs e ibs _) (upd C.dbs e dbs _)
              ((f.setContent i bytes).content j)
            rw [hblk, upd_of_ne hee, upd_of_ne hee, content_setContent_of_ne hji,
              ht.ents _ hee]
            exact h.frame ht hee hl.file
          lfbyte := by
            change _ → (upd C.dbs e dbs _)[_]? = _ ∧ _
            rw [hblk, upd_of_ne hee]
            exact hl.lfbyte
          name := by
            refine (name_setContent (f := f)).trans ?_
            rw [hblk]
            exact hl.name }

/-- The device that works on its file has it open at the new position. -/
theorem Live.updated (hlive : Live s C f d i pos) (he : (s.lfltab d).lfdirptr = e)
    (ht : Touch geo d e (C.ownI e) (C.ownD e) s s') {bytes : List UInt8} {pos' : Nat}
    {il dl ibs dbs : List UInt32} (hh : Holds (s'.view d e) il dl ibs dbs bytes)
    (hpos : (s'.lfltab d).lfpos.toNat = pos') (hle : pos' ≤ bytes.length)
    (hbyte : (s'.lfltab d).lfbyte < LF_BLKSIZ →
      dbs[pos' / 512]? = some (s'.lfltab d).lfdnum ∧ (s'.lfltab d).lfbyte = pos' % 512) :
    Live s' (C.change e il dl ibs dbs) ((f.setContent i bytes).setOpen d (some (i, pos')))
      d i pos' := by
  have hkept := ht.kept
  simp only [Lfs.kept, Prod.mk.injEq] at hkept
  have hptr : (s'.lfltab d).lfdirptr = e := hkept.2.2.1.trans he
  have hself : ((f.setContent i bytes).setOpen d (some (i, pos'))).content i = bytes :=
    content_setContent_self hlive.lt
  exact { lt := (length_setContent (f := f)).symm ▸ hlive.lt
          used := hkept.1.trans hlive.used
          entry := by rw [hptr, ← he]; exact hlive.entry
          lfpos := hpos
          le := by rw [hself]; exact hle
          file := by
            unfold Lfs.entryOf
            change FileOk _ _ _ (upd C.ibs e ibs _) (upd C.dbs e dbs _) _
            rw [hptr, upd_self, upd_self, hself]
            exact hh.file
          lfbyte := by
            change _ → (upd C.dbs e dbs _)[_]? = _ ∧ _
            rw [hptr, upd_self]
            exact hbyte
          name := by
            refine (name_setContent (f := f)).trans ?_
            rw [hlive.name, hkept.2.2.2.2] }

/-- The opened files stay different when a device goes on in its file. -/
theorem apart_setOpen
    (h : ∀ d d' i p p', f.opens d = some (i, p) → f.opens d' = some (i, p') → d = d')
    (hd : f.opens d = some (i, pos)) {pos' : Nat} {d₁ d₂ : Fin Nlfl} {j p₁ p₂ : Nat}
    (h₁ : upd f.opens d (some (i, pos')) d₁ = some (j, p₁))
    (h₂ : upd f.opens d (some (i, pos')) d₂ = some (j, p₂)) : d₁ = d₂ := by
  have hopen : ∀ d' p, upd f.opens d (some (i, pos')) d' = some (j, p) →
      ∃ p, f.opens d' = some (j, p) := by
    intro d' p hd'
    by_cases hdd : d' = d
    · rw [hdd, upd_self] at hd'
      cases hd'
      exact ⟨pos, hdd ▸ hd⟩
    · rw [upd_of_ne hdd] at hd'
      exact ⟨p, hd'⟩
  rcases hopen d₁ p₁ h₁ with ⟨q₁, hq₁⟩
  rcases hopen d₂ p₂ h₂ with ⟨q₂, hq₂⟩
  exact h d₁ d₂ j q₁ q₂ hq₁ hq₂

/-- A call that works on the file of one open device keeps the whole file system sound. -/
theorem Sound.update (h : Sound geo s C f) (hd : f.opens d = some (i, pos))
    (he : (s.lfltab d).lfdirptr = e) (bytes : List UInt8) (pos' : Nat)
    (ht : Touch geo d e (C.ownI e) (C.ownD e) s s')
    (hmutex : s'.lfMutex = 1) (hfmutex : (s'.lfltab d).lfmutex = 1)
    {il dl ibs dbs : List UInt32} (hs : Shares geo (C.ownI e) (C.ownD e) il dl ibs dbs)
    (hh : Holds (s'.view d e) il dl ibs dbs bytes) (hsized : Sized ibs dbs bytes.length)
    (hpos : (s'.lfltab d).lfpos.toNat = pos') (hle : pos' ≤ bytes.length)
    (hbyte : (s'.lfltab d).lfbyte < LF_BLKSIZ →
      dbs[pos' / 512]? = some (s'.lfltab d).lfdnum ∧ (s'.lfltab d).lfbyte = pos' % 512) :
    Sound geo s' (C.change e il dl ibs dbs)
      ((f.setContent i bytes).setOpen d (some (i, pos'))) := by
  have hlive := h.live d i pos hd
  have hi : e.val = i := by
    rw [← he]
    exact hlive.entry
  have hlt : i < f.files.length := hlive.lt
  have hopen : ∀ d' j p, d' ≠ d → f.opens d' = some (j, p) → j ≠ i := by
    intro d' j p hne hd' hji
    rw [hji] at hd'
    exact hne (h.apart d' d i p pos hd' hd)
  have hother : ∀ e', e' ≠ e → e'.val ≠ i := by
    intro e' hne heq
    exact hne (Fin.ext (heq.trans hi.symm))
  have hcontent : ∀ e', e' ≠ e →
      ((f.setContent i bytes).setOpen d (some (i, pos'))).content e'.val = f.content e'.val :=
    fun e' hne => content_setContent_of_ne (hother e' hne)
  have hself : ((f.setContent i bytes).setOpen d (some (i, pos'))).content i = bytes :=
    content_setContent_self hlt
  refine { mutex := hmutex, fmutex := ?_, count := ?_, few := ?_, index := ?_, data := ?_,
           pool := hh.pool, sized := ?_, names := ?_, distinct := ?_, idle := ?_, free := ?_,
           live := ?_, apart := ?_ }
  · intro d'
    by_cases hdd : d' = d
    · rw [hdd]
      exact hfmutex
    · rw [ht.blks d' hdd]
      exact h.fmutex d'
  · rw [ht.nfiles, h.count]
    exact length_setContent.symm
  · exact (length_setContent (f := f)).symm ▸ h.few
  · exact h.index.exchange (perm_of_shares (h.shares e).inodup hs.inodup fun a => (hs.iown a).symm)
  · exact h.data.exchange (perm_of_shares (h.shares e).dnodup hs.dnodup fun b => (hs.down b).symm)
  · intro e'
    change Sized (upd C.ibs e ibs e') (upd C.dbs e dbs e') _
    by_cases hee : e' = e
    · rw [hee, upd_self, upd_self, hi, hself]
      exact hsized
    · rw [upd_of_ne hee, upd_of_ne hee, hcontent e' hee]
      exact h.sized e'
  · intro e' he'
    have hlt' : e'.val < f.files.length := by
      have hlen : (f.setContent i bytes).files.length = f.files.length := length_setContent
      rw [← hlen]
      exact he'
    refine (name_setContent (f := f)).trans ?_
    rw [h.names e' hlt']
    by_cases hee : e' = e
    · rw [hee, ht.name]
    · rw [ht.ents e' hee]
  · exact (names_setContent (f := f)).symm ▸ h.distinct
  · intro e' he' hno
    have hee : e' ≠ e := by
      intro heq
      apply hno d pos'
      change upd f.opens d (some (i, pos')) d = _
      rw [upd_self, heq, hi]
    have hlt' : e'.val < f.files.length := by
      have hlen : (f.setContent i bytes).files.length = f.files.length := length_setContent
      rw [← hlen]
      exact he'
    change FileOk s'.disk _ _ (upd C.ibs e ibs e') (upd C.dbs e dbs e') _
    rw [upd_of_ne hee, upd_of_ne hee, hcontent e' hee, ht.ents e' hee]
    apply h.frame ht hee
    apply h.idle e' hlt'
    intro d' p hd'
    by_cases hdd : d' = d
    · rw [hdd, hd] at hd'
      exact hother e' hee (congrArg Prod.fst (Option.some.inj hd')).symm
    · apply hno d' p
      change upd f.opens d _ d' = _
      rw [upd_of_ne hdd, hd']
  · intro d' hd'
    by_cases hdd : d' = d
    · rw [hdd] at hd'
      change upd f.opens d _ d = none at hd'
      rw [upd_self] at hd'
      cases hd'
    · change upd f.opens d _ d' = none at hd'
      rw [upd_of_ne hdd] at hd'
      rw [ht.blks d' hdd]
      exact h.free d' hd'
  · intro d' j p hd'
    by_cases hdd : d' = d
    · subst hdd
      change upd f.opens d' _ d' = _ at hd'
      rw [upd_self] at hd'
      cases hd'
      exact hlive.updated he ht hh hpos hle hbyte
    · change upd f.opens d _ d' = _ at hd'
      rw [upd_of_ne hdd] at hd'
      exact h.live_other ht hi bytes pos' il dl ibs dbs hdd (hopen d' j p hdd hd')
        (h.live d' j p hd')
  · intro d₁ d₂ j p₁ p₂ h₁ h₂
    exact apart_setOpen h.apart hd h₁ h₂

end Update

end Lfs
end BbbXinu
