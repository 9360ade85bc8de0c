import BbbXinu.Lfs.Machine

/-!
# What stands where on the disk

The directory is in sector 0, the index blocks follow, seven in a sector, and
the rest are data blocks.  An index block is read from and written into a part
of its sector; this module says that doing so leaves all other blocks as they
are.
-/

namespace BbbXinu
namespace Lfs

open Layouts

/-- How the sectors of a disk are divided: the number of sectors that hold index blocks,
and the number of all sectors. -/
structure Geometry where
  isects : Nat
  sects : Nat
  sects_lt : sects < 8388608
  isects_lt : isects < sects

namespace Geometry

variable (geo : Geometry)

def IsIndex (a : UInt32) : Prop := a.toNat < 7 * geo.isects

def IsData (b : UInt32) : Prop := geo.isects < b.toNat ∧ b.toNat < geo.sects

variable {geo} {a : UInt32}

theorem IsIndex.ne_null (h : geo.IsIndex a) : a ≠ LF_INULL := by
  intro heq
  rw [heq] at h
  have h1 := geo.sects_lt
  have h2 := geo.isects_lt
  have h3 : LF_INULL.toNat = 4294967295 := rfl
  unfold IsIndex at h
  omega

theorem IsData.ne_null (h : geo.IsData a) : a ≠ LF_DNULL := by
  intro heq
  rw [heq] at h
  have h1 := geo.sects_lt
  have h3 : LF_DNULL.toNat = 4294967295 := rfl
  have h4 := h.2
  omega

/-- The sector of an index block lies behind the directory and before the data. -/
theorem IsIndex.sect (h : geo.IsIndex a) : 0 < ib2sect a ∧ ib2sect a ≤ geo.isects := by
  unfold IsIndex at h
  unfold ib2sect LF_AREA_IB
  omega

end Geometry

/-- The index block with the given identifier, as it stands on the disk. -/
def iblkAt (disk : Nat → Sector) (a : UInt32) : Lfiblk :=
  Lfiblk.layout.symm (piece (disk (ib2sect a)) (ib2disp a) 72 (ib2disp_le a))

/-- The link of a free data block. -/
def dlink (disk : Nat → Sector) (b : UInt32) : UInt32 :=
  (Lfdbfree.layout.symm (disk b.toNat)).lfNextdb

/-- The disk after an index block has been written. -/
def putIblk (disk : Nat → Sector) (a : UInt32) (ib : Lfiblk) : Nat → Sector :=
  upd disk (ib2sect a) (patch (disk (ib2sect a)) (ib2disp a) (Lfiblk.layout ib))

section

variable {disk : Nat → Sector} {a b : UInt32} {ib : Lfiblk}

@[simp] theorem iblkAt_putIblk_self : iblkAt (putIblk disk a ib) a = ib := by
  unfold iblkAt putIblk
  rw [upd_self, piece_patch, Equiv.symm_apply_apply]

theorem iblkAt_putIblk_of_ne (h : b ≠ a) : iblkAt (putIblk disk a ib) b = iblkAt disk b := by
  have hne : b.toNat ≠ a.toNat := fun heq => h (UInt32.toNat_inj.mp heq)
  unfold iblkAt putIblk
  by_cases hs : ib2sect b = ib2sect a
  · rw [hs, upd_self, piece_patch_of_disjoint]
    unfold ib2sect at hs
    unfold ib2disp
    omega
  · rw [upd_of_ne hs]

theorem putIblk_of_ne {j : Nat} (h : j ≠ ib2sect a) : putIblk disk a ib j = disk j := upd_of_ne h

/-- Writing a sector that holds no index blocks leaves all index blocks. -/
theorem iblkAt_upd {j : Nat} {c : Sector} (h : ib2sect b ≠ j) :
    iblkAt (upd disk j c) b = iblkAt disk b := by
  unfold iblkAt
  rw [upd_of_ne h]

end

/-!
## Places in a file
-/

theorem toNat_iblockStart (pos : UInt32) :
    (pos &&& ~~~LF_IMASK).toNat = pos.toNat / 8192 * 8192 := by
  rw [UInt32.toNat_and]
  change pos.toNat &&& 4294959104 = _
  rw [show 4294959104 = (2 ^ 19 - 1) <<< 13 by rfl, show 8192 = 2 ^ 13 by rfl,
    ← Nat.shiftRight_eq_div_pow, ← Nat.shiftLeft_eq]
  apply Nat.eq_of_testBit_eq
  intro i
  rw [Nat.testBit_and, Nat.testBit_shiftLeft, Nat.testBit_shiftLeft, Nat.testBit_shiftRight,
    Nat.testBit_two_pow_sub_one]
  by_cases h13 : 13 ≤ i
  · rw [show 13 + (i - 13) = i by omega]
    by_cases h32 : i < 32
    · simp [h13, show i - 13 < 19 by omega]
    · have hbit : pos.toNat.testBit i = false :=
        Nat.testBit_lt_two_pow (Nat.lt_of_lt_of_le pos.toNat_lt
          (Nat.pow_le_pow_right (by decide) (by omega)))
      simp [hbit]
  · simp [h13]

theorem toNat_dindex (pos : UInt32) : (dindex pos).val = pos.toNat % 8192 / 512 := by
  change ((pos &&& LF_IMASK) >>> 9).toNat = _
  rw [UInt32.toNat_shiftRight, UInt32.toNat_and, Nat.shiftRight_eq_div_pow]
  change (pos.toNat &&& 8191) / 512 = _
  rw [show 8191 = 2 ^ 13 - 1 by rfl, Nat.and_two_pow_sub_one_eq_mod]

theorem toNat_lfbyte (pos : UInt32) : (pos &&& LF_DMASK).toNat = pos.toNat % 512 := by
  rw [UInt32.toNat_and]
  change pos.toNat &&& 511 = _
  rw [show 511 = 2 ^ 9 - 1 by rfl, Nat.and_two_pow_sub_one_eq_mod]

end Lfs
end BbbXinu

/-!
# Storing index blocks

Seven index blocks share a sector, and {lit}`lfibput` writes the whole sector to change one of
them.  Nevertheless the index blocks of a disk are independent cells.
-/

namespace BbbXinu
namespace Lfs

open Layouts Prog

/-- The number of an index block: a value of {lit}`ibid32`, which is signed, that is not
negative.  The null pointer is none. -/
structure IbNum where
  id : UInt32
  nonneg : id.toNat < 2147483648

namespace IbNum

/-- The number as the code has it. -/
def value (i : IbNum) : Int := int32 i.id.toNat

variable (i : IbNum)

theorem value_eq : i.value = i.id.toNat := by
  have hi := i.nonneg
  exact int32_eq (by omega) (by omega)

/-- The signed division of the macro finds the sector. -/
theorem ib2sect_value : (ib2sect i.id : Int) = i.value.tdiv 7 + LF_AREA_IB := by
  rw [value_eq, Int.tdiv_eq_ediv_of_nonneg (Int.natCast_nonneg _)]
  simp [ib2sect]

/-- Its remainder finds the place in the sector. -/
theorem ib2disp_value : (ib2disp i.id : Int) = i.value.tmod 7 * 72 := by
  rw [value_eq, Int.tmod_eq_emod_of_nonneg (Int.natCast_nonneg _)]
  simp [ib2disp]

end IbNum

/-- The index block is stored, and nothing else on the disk is different. -/
structure Stores (i : IbNum) (b : Lfiblk) (s s' : Lfs) : Prop where
  own : run (lfibget i.id) s' = some (s', b)
  others : ∀ j : IbNum, j.value ≠ i.value → ∃ c,
    run (lfibget j.id) s = some (s, c) ∧ run (lfibget j.id) s' = some (s', c)
  sectors : ∀ n : Nat, (n : Int) ≠ i.value.tdiv 7 + LF_AREA_IB → s'.disk n = s.disk n
  bytes : ∀ p : Fin LF_BLKSIZ, (p : Int) < i.value.tmod 7 * 72 ∨ i.value.tmod 7 * 72 + 72 ≤ p →
    s'.disk (ib2sect i.id) p = s.disk (ib2sect i.id) p
  state : s' = { s with disk := s'.disk }

variable {s : Lfs} {a : UInt32} {ibuff : Lfs → Lfiblk}

theorem run_lfibget : run (lfibget a) s = some (s, iblkAt s.disk a) := rfl

theorem run_lfibput :
    run (lfibput a ibuff) s = some ({ s with disk := putIblk s.disk a (ibuff s) }, ()) := rfl

/-- Whatever is on the disk, {lit}`lfibput` replaces one index block. -/
theorem lfibput_stores (i : IbNum) (ibuff : Lfs → Lfiblk) (s : Lfs) :
    ∃ s', run (lfibput i.id ibuff) s = some (s', ()) ∧ Stores i (ibuff s) s s' := by
  refine ⟨_, run_lfibput, ?_⟩
  constructor
  · rw [run_lfibget, iblkAt_putIblk_self]
  · intro j hj
    have hne : j.id ≠ i.id := by
      intro he
      apply hj
      rw [IbNum.value_eq, IbNum.value_eq, he]
    refine ⟨iblkAt s.disk j.id, run_lfibget, ?_⟩
    rw [run_lfibget, iblkAt_putIblk_of_ne hne]
  · intro n hn
    apply putIblk_of_ne
    intro he
    apply hn
    rw [← IbNum.ib2sect_value, he]
  · intro p hp
    rw [← IbNum.ib2disp_value] at hp
    have hout : ¬ (ib2disp i.id ≤ p.val ∧ p.val < ib2disp i.id + 72) := by omega
    simp [putIblk, patch, hout]
  · rfl

end Lfs
end BbbXinu
