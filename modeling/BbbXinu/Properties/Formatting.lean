import BbbXinu.Invariant.LfsFormat

/-!
# Formatting a disk

{lit}`lfscreate` leaves an empty file system and touches no sector outside the
disk, unless the disk has two sectors, so that no data block is left, or the
number of index blocks wraps around when it is rounded up.
-/

namespace BbbXinu
namespace Lfs

open Layouts Prog

/-- The directory as it stands on the disk. -/
def dirOn (disk : Nat → Sector) : Lfdir := Lfdir.layout.symm (disk LF_AREA_DIR)

/-- No files, and two free lists: the blocks of the index sectors, and the sectors after
them, each exactly once. -/
structure EmptyDisk (isects sects : Nat) (disk : Nat → Sector) : Prop where
  nfiles : (dirOn disk).lfdNfiles = 0
  lists : ∃ il dl, Pool disk (dirOn disk).lfdIfree (dirOn disk).lfdDfree il dl ∧
    il.Nodup ∧ dl.Nodup ∧ (∀ a, a ∈ il ↔ ib2sect a ≤ isects) ∧
    (∀ b, b ∈ dl ↔ isects < b.toNat ∧ b.toNat < sects) ∧
    ∀ a ∈ il, ∀ b ∈ dl, ib2sect a ≠ b.toNat

/-- {lit}`lfscreate` ends, and when it accepts its arguments it formats the disk and writes
no sector behind its end. -/
structure Formats (lfiblks dsiz : UInt32) (s : Lfs) : Prop where
  ends : ∃ t, run (lfscreate lfiblks dsiz) s = some t
  inside : ∀ s', run (lfscreate lfiblks dsiz) s = some (s', OK) →
    ∀ j, (dsiz / 512).toNat ≤ j → s'.disk j = s.disk j
  formats : ∀ s', run (lfscreate lfiblks dsiz) s = some (s', OK) →
    EmptyDisk (ibsectors lfiblks).toNat (dsiz / 512).toNat s'.disk

section

variable {lfiblks dsiz base : UInt32} {s : Lfs} {disk : Nat → Sector} {n m : Nat}

/-!
## What the loops leave alone
-/

/-- Seven index blocks are in a sector. -/
theorem putIblks_of_lt {ib : Nat → Lfiblk} {isects j : Nat} (hn : n ≤ 7 * isects)
    (hsmall : n ≤ 4294967296) (hj : isects < j) : putIblks ib n disk j = disk j := by
  induction n with
  | zero => rfl
  | succ n ih =>
      rw [putIblks_succ, putIblk_of_ne, ih (by omega) (by omega)]
      unfold ib2sect LF_AREA_IB
      rw [toNat_ofNat_of_lt (by omega)]
      omega

theorem putDblks_of_le {c : Nat → Sector} {j : Nat} (hn : base.toNat + n ≤ 4294967296)
    (hj : base.toNat + n ≤ j) : putDblks base c n disk j = disk j := by
  induction n with
  | zero => rfl
  | succ n ih =>
      rw [putDblks_succ, upd_of_ne, ih (by omega) (by omega)]
      rw [UInt32.toNat_add, toNat_ofNat_of_lt (by omega)]
      omega

/-- A sector keeps its contents, or holds one of the free blocks. -/
theorem putDblks_cases (base : UInt32) (c : Nat → Sector) (n : Nat) (disk : Nat → Sector) (j : Nat) :
    putDblks base c n disk j = disk j ∨ ∃ k, putDblks base c n disk j = c k := by
  induction n with
  | zero => exact Or.inl rfl
  | succ n ih =>
      rw [putDblks_succ]
      by_cases hj : j = (base + UInt32.ofNat n).toNat
      · rw [hj, upd_self]
        exact Or.inr ⟨n, rfl⟩
      · rw [upd_of_ne hj]
        exact ih

/-- The numbers of the blocks wrap around, but not onto one another. -/
theorem putDblks_wrap {c : Nat → Sector} {k : Nat} (hn : n ≤ 4294967296) (hk : k < n) :
    putDblks base c n disk (base + UInt32.ofNat k).toNat = c k := by
  induction n with
  | zero => omega
  | succ n ih =>
      rw [putDblks_succ]
      by_cases hkn : k = n
      · rw [hkn, upd_self]
      · rw [upd_of_ne, ih (by omega) (by omega)]
        intro heq
        have hval := UInt32.toNat_inj.mp heq
        have hcancel := congrArg UInt32.toNat (UInt32.add_right_inj base |>.mp hval)
        rw [toNat_ofNat_of_lt (by omega), toNat_ofNat_of_lt (by omega)] at hcancel
        exact hkn hcancel

/-!
## A free block in place of the directory
-/

/-- The first word of a sector. -/
theorem lfdDfree_eq (b : Sector) :
    (Lfdir.layout.symm b).lfdDfree = (Lfdbfree.layout.symm b).lfNextdb := rfl

/-- The second word of a sector. -/
theorem lfdIfree_eq (b : Sector) : (Lfdir.layout.symm b).lfdIfree
    = ofBytes fun i => b ⟨4 + i.val, by unfold LF_BLKSIZ; omega⟩ := rfl

theorem layout_unused (blk : Lfdbfree) (k : Fin 508) :
    Lfdbfree.layout blk ⟨4 + k.val, by unfold LF_BLKSIZ; omega⟩ = blk.lfUnused k := by
  change Fin.append (word blk.lfNextdb) blk.lfUnused (Fin.natAdd 4 k) = _
  rw [Fin.append_right]

theorem ifree_freeBlock (next : UInt32) :
    (Lfdir.layout.symm (Lfdbfree.layout (freeBlock next))).lfdIfree = 0 := by
  have hbytes : (fun i : Fin 4 => Lfdbfree.layout (freeBlock next)
      ⟨4 + i.val, by unfold LF_BLKSIZ; omega⟩) = fun _ => 0 :=
    funext fun i => layout_unused (freeBlock next) ⟨i.val, by omega⟩
  rw [lfdIfree_eq, hbytes]
  rfl

/-- However many blocks are written, the list of the index blocks starts with block 0. -/
theorem ifree_formatDisk (base : UInt32) (n m : Nat) (disk : Nat → Sector) :
    (dirOn (formatDisk base n m disk)).lfdIfree = 0 := by
  unfold dirOn formatDisk
  rcases putDblks_cases base (freeDblk base m) m (putIblks (freeIblk n) n
    (upd disk LF_AREA_DIR (Lfdir.layout (emptyDir base)))) LF_AREA_DIR with h | ⟨k, h⟩
  · rw [h, putIblks_dir, upd_self, Equiv.symm_apply_apply]
    rfl
  · rw [h]
    exact ifree_freeBlock _

/-!
## When it goes right
-/

/-- Rounding up does not wrap around. -/
theorem toNat_ibsectors (h : lfiblks.toNat + 6 < 4294967296) :
    (ibsectors lfiblks).toNat = (lfiblks.toNat + 6) / 7 := by
  have hadd : (lfiblks + (ibpersector - 1)).toNat = lfiblks.toNat + 6 := by
    rw [UInt32.toNat_add]
    exact Nat.mod_eq_of_lt h
  unfold ibsectors
  rw [UInt32.toNat_div, hadd]
  rfl

theorem hasRoom_of_accepted (hpos : 1 ≤ lfiblks.toNat) (hwrap : lfiblks.toNat + 6 < 4294967296)
    (htwo : dsiz / 512 ≠ 2) (hacc : ¬dsiz / 512 / 2 < ibsectors lfiblks) :
    HasRoom lfiblks dsiz := by
  have hsize := toNat_ibsectors hwrap
  have hne : (dsiz / 512).toNat ≠ 2 := fun heq => htwo (UInt32.toNat_inj.mp heq)
  have hle : (ibsectors lfiblks).toNat ≤ (dsiz / 512).toNat / 2 := by
    rw [UInt32.lt_iff_toNat_lt, UInt32.toNat_div] at hacc
    exact Nat.not_lt.mp hacc
  constructor
  · omega
  · omega

theorem emptyDisk_of_pool (geo : Geometry) (hn : (dirOn disk).lfdNfiles = 0)
    (hp : Pool disk (dirOn disk).lfdIfree (dirOn disk).lfdDfree (indexIds geo) (dataIds geo)) :
    EmptyDisk geo.isects geo.sects disk where
  nfiles := hn
  lists := by
    refine ⟨indexIds geo, dataIds geo, hp, indexIds_nodup, dataIds_nodup, ?_, ?_, ?_⟩
    · intro a
      rw [mem_indexIds]
      unfold Geometry.IsIndex ib2sect LF_AREA_IB
      omega
    · exact fun b => mem_dataIds
    · intro a ha b hb heq
      have hsect := (mem_indexIds.mp ha).sect
      have hdata := (mem_dataIds.mp hb).1
      omega

theorem formats_of_hasRoom (h : HasRoom lfiblks dsiz) (s : Lfs) : Formats lfiblks dsiz s := by
  have hindex : 0 < (geometry h).isects := h.index
  have hdata : (geometry h).isects + 1 < (geometry h).sects := h.data
  have hlt := (geometry h).sects_lt
  have hbase : (ibsectors lfiblks + 1).toNat = (geometry h).isects + 1 := by
    rw [UInt32.toNat_add]
    change ((geometry h).isects + 1) % 4294967296 = _
    omega
  have hrun := run_lfscreate h s
  by_cases hbad : dsiz / 512 / 2 < ibsectors lfiblks
  · rw [if_pos hbad] at hrun
    refine ⟨⟨_, hrun⟩, ?_, ?_⟩
    · intro s' hs'
      rw [hrun] at hs'
      cases hs'
    · intro s' hs'
      rw [hrun] at hs'
      cases hs'
  · rw [if_neg hbad] at hrun
    refine ⟨⟨_, hrun⟩, ?_, ?_⟩
    · intro s' hs' j hj
      rw [hrun] at hs'
      cases hs'
      change formatDisk _ _ _ _ j = _
      unfold formatDisk
      have hsects : (geometry h).sects ≤ j := hj
      have hdir : j ≠ LF_AREA_DIR := by
        unfold LF_AREA_DIR
        omega
      rw [putDblks_of_le (by omega) (by omega), putIblks_of_lt (Nat.le_refl _) (by omega) (by omega),
        upd_of_ne hdir]
    · intro s' hs'
      rw [hrun] at hs'
      cases hs'
      have hdir : Lfdir.layout.symm (formatDisk (ibsectors lfiblks + 1) (7 * (geometry h).isects)
          ((geometry h).sects - (geometry h).isects - 1) s.disk LF_AREA_DIR) =
          emptyDir (ibsectors lfiblks + 1) :=
        dir_formatDisk (by omega) (by omega)
      apply emptyDisk_of_pool (geometry h)
      · unfold dirOn
        rw [hdir]
        rfl
      · unfold dirOn
        rw [hdir]
        exact pool_formatDisk (geometry h) hindex hdata hbase

theorem formats_of_rejected (h : dsiz / 512 / 2 < ibsectors lfiblks) (s : Lfs) :
    Formats lfiblks dsiz s := by
  have hrun := run_format lfiblks dsiz s
  rw [if_pos h] at hrun
  refine ⟨⟨_, hrun⟩, ?_, ?_⟩
  · intro s' hs'
    rw [hrun] at hs'
    cases hs'
  · intro s' hs'
    rw [hrun] at hs'
    cases hs'

/-!
## When it goes wrong
-/

theorem ib2sect_pos (a : UInt32) : 0 < ib2sect a := Nat.succ_pos _

/-- Without index sectors the list of index blocks would have to be empty. -/
theorem not_formats_wrap (h : 4294967296 ≤ lfiblks.toNat + 6) (s : Lfs) :
    ¬Formats lfiblks dsiz s := by
  intro hf
  have hzero : ibsectors lfiblks = 0 := by
    apply UInt32.toNat_inj.mp
    have hlt := lfiblks.toNat_lt
    unfold ibsectors
    rw [UInt32.toNat_div, UInt32.toNat_add]
    change (lfiblks.toNat + 6) % 4294967296 / 7 = 0
    omega
  have hrun := run_format lfiblks dsiz s
  rw [hzero, if_neg UInt32.not_lt_zero] at hrun
  have hempty := hf.formats _ hrun
  rcases hempty.lists with ⟨il, dl, hpool, -, -, hil, -⟩
  have hnil : il = [] := by
    apply List.eq_nil_iff_forall_not_mem.mpr
    intro a ha
    have hle := (hil a).mp ha
    rw [hzero] at hle
    exact absurd hle (Nat.not_le.mpr (ib2sect_pos a))
  have hhead := hpool.index.head_eq
  rw [hnil, ifree_formatDisk] at hhead
  exact absurd hhead (by decide)

/-- On two sectors the loop over the data blocks runs around all sector numbers, so that a
free block takes the place of the directory. -/
theorem not_formats_two (hpos : 1 ≤ lfiblks.toNat) (hwrap : lfiblks.toNat + 6 < 4294967296)
    (htwo : dsiz / 512 = 2) (hacc : ¬dsiz / 512 / 2 < ibsectors lfiblks) (s : Lfs) :
    ¬Formats lfiblks dsiz s := by
  intro hf
  have hone : ibsectors lfiblks = 1 := by
    have hsize := toNat_ibsectors hwrap
    rw [htwo, UInt32.lt_iff_toNat_lt] at hacc
    have hle : (ibsectors lfiblks).toNat ≤ 1 := Nat.not_lt.mp hacc
    apply UInt32.toNat_inj.mp
    change _ = 1
    omega
  have hrun := run_format lfiblks dsiz s
  rw [htwo, hone, if_neg (by decide)] at hrun
  have hempty := hf.formats _ hrun
  rcases hempty.lists with ⟨il, dl, hpool, -, -, -, hdl, -⟩
  have hnil : dl = [] := by
    apply List.eq_nil_iff_forall_not_mem.mpr
    intro b hb
    have hmem := (hdl b).mp hb
    rw [htwo, hone] at hmem
    have hlow : 1 < b.toNat := hmem.1
    have hhigh : b.toNat < 2 := hmem.2
    omega
  have hhead := hpool.data.head_eq
  rw [hnil] at hhead
  have hplace : ((1 : UInt32) + 1 + UInt32.ofNat 4294967294).toNat = LF_AREA_DIR := by decide
  have hlt : 4294967294 + 1 < ((2 : UInt32) - 1 - 1 - 1).toNat + 1 := by decide
  have hmax : ((2 : UInt32) - 1 - 1 - 1).toNat + 1 ≤ 4294967296 := by decide
  generalize ((2 : UInt32) - 1 - 1 - 1).toNat + 1 = m at hhead hlt hmax
  have hlast : (dirOn (formatDisk (1 + 1) (((1 : UInt32) * ibpersector - 1).toNat + 1) m
      s.disk)).lfdDfree = if 4294967294 + 1 < m then 1 + 1 + UInt32.ofNat 4294967294 + 1
        else LF_DNULL := by
    unfold dirOn formatDisk
    rw [← hplace, putDblks_wrap hmax (by omega), lfdDfree_eq]
    unfold freeDblk
    rw [Equiv.symm_apply_apply]
    rfl
  rw [hlast, if_pos hlt] at hhead
  exact absurd hhead (by decide)

/-!
## The exact condition
-/

/-- {lit}`lfscreate` formats a disk for all arguments that it does not reject, but for disks
of two sectors and numbers of index blocks that wrap around. -/
theorem lfscreate_formats (hpos : 1 ≤ lfiblks.toNat) (s : Lfs) :
    Formats lfiblks dsiz s ↔
      dsiz / 512 / 2 < ibsectors lfiblks ∨
        (lfiblks.toNat + 6 < 4294967296 ∧ dsiz / 512 ≠ 2) := by
  constructor
  · intro hf
    by_cases hbad : dsiz / 512 / 2 < ibsectors lfiblks
    · exact Or.inl hbad
    · right
      by_cases hwrap : lfiblks.toNat + 6 < 4294967296
      · refine ⟨hwrap, ?_⟩
        intro htwo
        exact not_formats_two hpos hwrap htwo hbad s hf
      · exact absurd hf (not_formats_wrap (Nat.not_lt.mp hwrap) s)
  · intro h
    rcases h with hbad | ⟨hwrap, htwo⟩
    · exact formats_of_rejected hbad s
    · by_cases hbad : dsiz / 512 / 2 < ibsectors lfiblks
      · exact formats_of_rejected hbad s
      · exact formats_of_hasRoom (hasRoom_of_accepted hpos hwrap htwo hbad) s

end

/-- Seven index blocks on six sectors. -/
theorem lfscreate_formats_small : Formats 7 3072 blankSystem :=
  (lfscreate_formats (by decide) blankSystem).mpr (Or.inr ⟨by decide, by decide⟩)

/-- A disk of two sectors is accepted with one index block. -/
theorem lfscreate_overruns :
    ¬ ∀ (lfiblks dsiz : UInt32) (s : Lfs), 1 ≤ lfiblks.toNat → Formats lfiblks dsiz s := fun h =>
  not_formats_two (by decide) (by decide) (by decide) (by decide) blankSystem
    (h 1 1024 blankSystem (by decide))

end Lfs
end BbbXinu
