import BbbXinu.Invariant.LfsOpening

/-!
# A formatted disk

{lit}`lfscreate` leaves a directory without files and the two free lists, each of
which runs through all its blocks in order.  With one index block and one data
block at least, this is a sound file system without files.
-/

namespace BbbXinu
namespace Lfs

open Layouts Prog

/-!
## Writing a whole list
-/

section Lists

/-- The disk after the first index blocks have been written. -/
def putIblks (ib : Nat → Lfiblk) (n : Nat) (disk : Nat → Sector) : Nat → Sector :=
  (List.range n).foldl (fun disk i => putIblk disk (UInt32.ofNat i) (ib i)) disk

/-- The disk after the first data blocks have been written. -/
def putDblks (base : UInt32) (c : Nat → Sector) (n : Nat) (disk : Nat → Sector) : Nat → Sector :=
  (List.range n).foldl (fun disk i => upd disk (base + UInt32.ofNat i).toNat (c i)) disk

/-- A loop that writes index blocks. -/
theorem run_putIblks (ib : Nat → Lfiblk) (l : List Nat) (s : Lfs) :
    run (forEach (fun i => lfibput (UInt32.ofNat i) fun _ => ib i) l) s = some ({ s with
      disk := l.foldl (fun disk i => putIblk disk (UInt32.ofNat i) (ib i)) s.disk }, ()) := by
  induction l generalizing s with
  | nil => rfl
  | cons i l ih => exact ih { s with disk := putIblk s.disk (UInt32.ofNat i) (ib i) }

/-- A loop that writes data blocks. -/
theorem run_putDblks (base : UInt32) (c : Nat → Sector) (l : List Nat) (s : Lfs) :
    run (forEach (fun i => writeDisk (base + UInt32.ofNat i).toNat fun _ => c i) l) s = some ({ s with
      disk := l.foldl (fun disk i => upd disk (base + UInt32.ofNat i).toNat (c i)) s.disk }, ()) := by
  induction l generalizing s with
  | nil => rfl
  | cons i l ih => exact ih (s.setDisk (base + UInt32.ofNat i).toNat (c i))

theorem putIblks_succ {ib : Nat → Lfiblk} {n : Nat} {disk : Nat → Sector} :
    putIblks ib (n + 1) disk = putIblk (putIblks ib n disk) (UInt32.ofNat n) (ib n) := by
  unfold putIblks
  rw [List.range_succ, List.foldl_append]
  rfl

theorem putDblks_succ {base : UInt32} {c : Nat → Sector} {n : Nat} {disk : Nat → Sector} :
    putDblks base c (n + 1) disk
      = upd (putDblks base c n disk) (base + UInt32.ofNat n).toNat (c n) := by
  unfold putDblks
  rw [List.range_succ, List.foldl_append]
  rfl

theorem toNat_ofNat_of_lt {n : Nat} (h : n < 4294967296) : (UInt32.ofNat n).toNat = n := by
  rw [UInt32.toNat_ofNat', Nat.mod_eq_of_lt h]

theorem putIblks_self {ib : Nat → Lfiblk} {n k : Nat} {disk : Nat → Sector}
    (hn : n ≤ 4294967296) (hk : k < n) : iblkAt (putIblks ib n disk) (UInt32.ofNat k) = ib k := by
  induction n with
  | zero => omega
  | succ n ih =>
      rw [putIblks_succ]
      by_cases hkn : k = n
      · rw [hkn, iblkAt_putIblk_self]
      · rw [iblkAt_putIblk_of_ne, ih (by omega) (by omega)]
        intro heq
        have hval := congrArg UInt32.toNat heq
        rw [toNat_ofNat_of_lt (by omega), toNat_ofNat_of_lt (by omega)] at hval
        exact hkn hval

/-- The directory is not among the index blocks. -/
theorem putIblks_dir {ib : Nat → Lfiblk} {n : Nat} {disk : Nat → Sector} :
    putIblks ib n disk LF_AREA_DIR = disk LF_AREA_DIR := by
  induction n with
  | zero => rfl
  | succ n ih =>
      rw [putIblks_succ, putIblk_of_ne, ih]
      unfold ib2sect LF_AREA_DIR LF_AREA_IB
      omega

theorem putDblks_of_lt {base : UInt32} {c : Nat → Sector} {n j : Nat} {disk : Nat → Sector}
    (hn : base.toNat + n ≤ 4294967296) (hj : j < base.toNat) : putDblks base c n disk j = disk j := by
  induction n with
  | zero => rfl
  | succ n ih =>
      rw [putDblks_succ, upd_of_ne, ih (by omega)]
      rw [UInt32.toNat_add, toNat_ofNat_of_lt (by omega)]
      omega

theorem putDblks_self {base : UInt32} {c : Nat → Sector} {n k : Nat} {disk : Nat → Sector}
    (hn : base.toNat + n ≤ 4294967296) (hk : k < n) :
    putDblks base c n disk (base.toNat + k) = c k := by
  induction n with
  | zero => omega
  | succ n ih =>
      have hplace : (base + UInt32.ofNat n).toNat = base.toNat + n := by
        rw [UInt32.toNat_add, toNat_ofNat_of_lt (by omega)]
        omega
      rw [putDblks_succ, hplace]
      by_cases hkn : k = n
      · rw [hkn, upd_self]
      · rw [upd_of_ne (by omega), ih (by omega) (by omega)]

end Lists

/-!
## The formatted disk
-/

/-- The free index blocks, of which the last one ends the list. -/
def freeIblk (n k : Nat) : Lfiblk :=
  { lfibclear 0 with ibNext := if k + 1 < n then UInt32.ofNat (k + 1) else LF_INULL }

def freeDblk (base : UInt32) (n k : Nat) : Sector :=
  Lfdbfree.layout (freeBlock (if k + 1 < n then base + UInt32.ofNat k + 1 else LF_DNULL))

/-- What {lit}`lfscreate` leaves on the disk. -/
def formatDisk (base : UInt32) (n m : Nat) (disk : Nat → Sector) : Nat → Sector :=
  putDblks base (freeDblk base m) m
    (putIblks (freeIblk n) n (upd disk LF_AREA_DIR (Lfdir.layout (emptyDir base))))

/-- The disk has an index block and a data block. -/
structure HasRoom (lfiblks dsiz : UInt32) : Prop where
  index : 0 < (ibsectors lfiblks).toNat
  data : (ibsectors lfiblks).toNat + 1 < (dsiz / 512).toNat

/-- How {lit}`lfscreate` divides a disk. -/
def geometry {lfiblks dsiz : UInt32} (h : HasRoom lfiblks dsiz) : Geometry where
  isects := (ibsectors lfiblks).toNat
  sects := (dsiz / 512).toNat
  sects_lt := by
    have hlt := dsiz.toNat_lt
    rw [UInt32.toNat_div]
    change dsiz.toNat / 512 < _
    omega
  isects_lt := by
    have hdata := h.data
    omega

section Format

variable {lfiblks dsiz : UInt32} {s : Lfs} {base : UInt32} {n m : Nat} {disk : Nat → Sector}

theorem putIblks_congr {ib ib' : Nat → Lfiblk} {n : Nat} (h : ∀ k, k < n → ib k = ib' k) :
    putIblks ib n disk = putIblks ib' n disk := by
  induction n with
  | zero => rfl
  | succ n ih =>
      rw [putIblks_succ, putIblks_succ, h n (by omega), ih fun k hk => h k (by omega)]

theorem putDblks_congr {c c' : Nat → Sector} {n : Nat} (h : ∀ k, k < n → c k = c' k) :
    putDblks base c n disk = putDblks base c' n disk := by
  induction n with
  | zero => rfl
  | succ n ih =>
      rw [putDblks_succ, putDblks_succ, h n (by omega), ih fun k hk => h k (by omega)]

/-- The loop over the index blocks and the one that follows it. -/
theorem run_indexList (n : Nat) (s : Lfs) :
    run (do
      forEach (fun i => lfibput (UInt32.ofNat i) fun _ =>
        { lfibclear 0 with ibNext := UInt32.ofNat (i + 1) }) (List.range n)
      lfibput (UInt32.ofNat n) fun _ => { lfibclear 0 with ibNext := LF_INULL }) s
      = some ({ s with disk := putIblks (freeIblk (n + 1)) (n + 1) s.disk }, ()) := by
  have hlast : freeIblk (n + 1) n = { lfibclear 0 with ibNext := LF_INULL } := by
    unfold freeIblk
    rw [if_neg (by omega)]
  have hall : putIblks (freeIblk (n + 1)) n s.disk
      = putIblks (fun i => { lfibclear 0 with ibNext := UInt32.ofNat (i + 1) }) n s.disk := by
    apply putIblks_congr
    intro k hk
    unfold freeIblk
    rw [if_pos (by omega)]
  have hloop := run_putIblks (fun i => { lfibclear 0 with ibNext := UInt32.ofNat (i + 1) })
    (List.range n) s
  rw [run_bind, hloop, putIblks_succ, hlast, hall]
  rfl

theorem run_dataList (base : UInt32) (n : Nat) (s : Lfs) :
    run (do
      forEach (fun i => writeDisk (base + UInt32.ofNat i).toNat fun _ =>
        Lfdbfree.layout (freeBlock (base + UInt32.ofNat i + 1))) (List.range n)
      writeDisk (base + UInt32.ofNat n).toNat fun _ => Lfdbfree.layout (freeBlock LF_DNULL)) s
      = some ({ s with disk := putDblks base (freeDblk base (n + 1)) (n + 1) s.disk }, ()) := by
  have hlast : freeDblk base (n + 1) n = Lfdbfree.layout (freeBlock LF_DNULL) := by
    unfold freeDblk
    rw [if_neg (by omega)]
  have hall : putDblks base (freeDblk base (n + 1)) n s.disk
      = putDblks base (fun i => Lfdbfree.layout (freeBlock (base + UInt32.ofNat i + 1))) n
        s.disk := by
    apply putDblks_congr
    intro k hk
    unfold freeDblk
    rw [if_pos (by omega)]
  have hloop := run_putDblks base (fun i =>
    Lfdbfree.layout (freeBlock (base + UInt32.ofNat i + 1))) (List.range n) s
  rw [run_bind, hloop, putDblks_succ, hlast, hall]
  rfl

/-- What {lit}`lfscreate` does, unless its arguments are bad.  The two numbers of blocks wrap
around with the words that they are computed in. -/
theorem run_format (lfiblks dsiz : UInt32) (s : Lfs) :
    run (lfscreate lfiblks dsiz) s = if dsiz / 512 / 2 < ibsectors lfiblks then some (s, SYSERR)
      else some ({ s with
        disk := formatDisk (ibsectors lfiblks + 1)
          ((ibsectors lfiblks * ibpersector - 1).toNat + 1)
          ((dsiz / 512 - ibsectors lfiblks - 1 - 1).toNat + 1) s.disk }, OK) := by
  unfold lfscreate
  by_cases hbad : dsiz / 512 / 2 < ibsectors lfiblks
  · simp only [if_pos hbad]
    rfl
  · simp only [if_neg hbad]
    have hi : ibsectors lfiblks * ibpersector - 1
        = UInt32.ofNat (ibsectors lfiblks * ibpersector - 1).toNat := UInt32.ofNat_toNat.symm
    have hm : dsiz / 512 - ibsectors lfiblks - 1 - 1
        = UInt32.ofNat (dsiz / 512 - ibsectors lfiblks - 1 - 1).toNat := UInt32.ofNat_toNat.symm
    generalize (ibsectors lfiblks * ibpersector - 1).toNat = n at hi ⊢
    generalize (dsiz / 512 - ibsectors lfiblks - 1 - 1).toNat = m at hm ⊢
    rw [hi, hm]
    have hindexList := run_indexList n
      (s.setDisk LF_AREA_DIR (Lfdir.layout (emptyDir (ibsectors lfiblks + 1))))
    have hdataList := run_dataList (ibsectors lfiblks + 1) m
    rw [run_bind]
    change run _ (s.setDisk LF_AREA_DIR _) = _
    rw [← bind_assoc_eq, run_bind, hindexList, Option.bind_some, ← bind_assoc_eq, run_bind,
      hdataList, Option.bind_some]
    rfl

/-- With room for an index block and a data block the numbers do not wrap around. -/
theorem run_lfscreate (h : HasRoom lfiblks dsiz) (s : Lfs) :
    run (lfscreate lfiblks dsiz) s = if dsiz / 512 / 2 < ibsectors lfiblks then some (s, SYSERR)
      else some ({ s with
        disk := formatDisk (ibsectors lfiblks + 1) (7 * (geometry h).isects)
          ((geometry h).sects - (geometry h).isects - 1) s.disk }, OK) := by
  have hsects := (geometry h).sects_lt
  have hindex := h.index
  have hdata := h.data
  rw [run_format]
  generalize hgi : (geometry h).isects = isects
  generalize hgs : (geometry h).sects = sects
  have hi : (ibsectors lfiblks).toNat = isects := hgi
  have hs : (dsiz / 512).toNat = sects := hgs
  rw [hgs] at hsects
  rw [hi] at hindex hdata
  rw [hs] at hdata
  have hn : (ibsectors lfiblks * ibpersector - 1).toNat = 7 * isects - 1 := by
    have hmul : (ibsectors lfiblks * ibpersector).toNat = 7 * isects := by
      rw [UInt32.toNat_mul, hi]
      change isects * 7 % 4294967296 = _
      omega
    rw [UInt32.toNat_sub_of_le _ _ (by rw [UInt32.le_iff_toNat_le, hmul]; change 1 ≤ _; omega),
      hmul]
    rfl
  have hm : (dsiz / 512 - ibsectors lfiblks - 1 - 1).toNat = sects - isects - 1 - 1 := by
    have hsub : (dsiz / 512 - ibsectors lfiblks).toNat = sects - isects := by
      rw [UInt32.toNat_sub_of_le _ _ (by rw [UInt32.le_iff_toNat_le, hi, hs]; omega), hi, hs]
    have hsub1 : (dsiz / 512 - ibsectors lfiblks - 1).toNat = sects - isects - 1 := by
      rw [UInt32.toNat_sub_of_le _ _ (by
        rw [UInt32.le_iff_toNat_le, hsub]
        change 1 ≤ _
        omega), hsub]
      rfl
    rw [UInt32.toNat_sub_of_le _ _ (by
      rw [UInt32.le_iff_toNat_le, hsub1]
      change 1 ≤ _
      omega), hsub1]
    rfl
  rw [hn, hm, show 7 * isects - 1 + 1 = 7 * isects by omega,
    show sects - isects - 1 - 1 + 1 = sects - isects - 1 by omega]

/-!
## The file system on a formatted disk
-/

/-- All blocks are free. -/
def Catalog.empty (geo : Geometry) : Catalog :=
  { il := indexIds geo, dl := dataIds geo, ibs := fun _ => [], dbs := fun _ => [] }

theorem indexIds_getElem? (geo : Geometry) (k : Nat) :
    (indexIds geo)[k]? = if k < 7 * geo.isects then some (UInt32.ofNat k) else none := by
  unfold indexIds
  rw [List.getElem?_map]
  by_cases hk : k < 7 * geo.isects
  · rw [if_pos hk, List.getElem?_range hk]
    rfl
  · rw [if_neg hk, List.getElem?_eq_none_iff.mpr (by rw [List.length_range]; omega)]
    rfl

theorem dataIds_getElem? (geo : Geometry) (k : Nat) :
    (dataIds geo)[k]? = if k < geo.sects - geo.isects - 1 then
      some (UInt32.ofNat (geo.isects + 1 + k)) else none := by
  unfold dataIds
  rw [List.getElem?_map]
  by_cases hk : k < geo.sects - geo.isects - 1
  · rw [if_pos hk, List.getElem?_range' hk]
    simp
  · rw [if_neg hk, List.getElem?_eq_none_iff.mpr (by rw [List.length_range']; omega)]
    rfl

theorem pool_formatDisk (geo : Geometry) (hi : 0 < geo.isects) (hd : geo.isects + 1 < geo.sects)
    (hbase : base.toNat = geo.isects + 1) :
    Pool (formatDisk base (7 * geo.isects) (geo.sects - geo.isects - 1) disk) 0 base
      (indexIds geo) (dataIds geo) where
  index := by
    have hlt := geo.sects_lt
    apply Chain.of_getElem
    · rw [List.headD_eq_head?_getD, List.head?_eq_getElem?, indexIds_getElem?, if_pos (by omega)]
      rfl
    · intro k hk
      have hget := indexIds_getElem? geo k
      have hkn : k < 7 * geo.isects := by
        by_contra hno
        rw [if_neg hno, List.getElem?_eq_none_iff] at hget
        omega
      rw [List.getElem?_eq_getElem hk, if_pos hkn] at hget
      have hsect : ib2sect (UInt32.ofNat k) < base.toNat := by
        unfold ib2sect LF_AREA_IB
        rw [toNat_ofNat_of_lt (by omega)]
        omega
      have hblk : iblkAt (formatDisk base (7 * geo.isects) (geo.sects - geo.isects - 1) disk)
          (UInt32.ofNat k) = freeIblk (7 * geo.isects) k := by
        have hself : iblkAt (putIblks (freeIblk (7 * geo.isects)) (7 * geo.isects)
            (upd disk LF_AREA_DIR (Lfdir.layout (emptyDir base)))) (UInt32.ofNat k)
            = freeIblk (7 * geo.isects) k := putIblks_self (by omega) hkn
        rw [← hself]
        unfold formatDisk iblkAt
        rw [putDblks_of_lt (by omega) hsect]
      rw [Option.some.inj hget, hblk, indexIds_getElem?]
      unfold freeIblk
      by_cases hnext : k + 1 < 7 * geo.isects
      · simp [hnext]
      · simp [hnext]
  data := by
    have hlt := geo.sects_lt
    have hid : ∀ k, k < geo.sects - geo.isects - 1 →
        base + UInt32.ofNat k = UInt32.ofNat (geo.isects + 1 + k) := by
      intro k hk
      apply UInt32.toNat_inj.mp
      rw [UInt32.toNat_add, hbase, toNat_ofNat_of_lt (by omega), toNat_ofNat_of_lt (by omega)]
      omega
    apply Chain.of_getElem
    · rw [List.headD_eq_head?_getD, List.head?_eq_getElem?, dataIds_getElem?, if_pos (by omega)]
      apply UInt32.toNat_inj.mp
      rw [hbase]
      exact (toNat_ofNat_of_lt (by omega)).symm
    · intro k hk
      have hget := dataIds_getElem? geo k
      have hkn : k < geo.sects - geo.isects - 1 := by
        by_contra hno
        rw [if_neg hno, List.getElem?_eq_none_iff] at hget
        omega
      rw [List.getElem?_eq_getElem hk, if_pos hkn] at hget
      have hblk : formatDisk base (7 * geo.isects) (geo.sects - geo.isects - 1) disk
          (UInt32.ofNat (geo.isects + 1 + k)).toNat
          = freeDblk base (geo.sects - geo.isects - 1) k := by
        rw [toNat_ofNat_of_lt (by omega), ← hbase]
        unfold formatDisk
        rw [putDblks_self (by omega) hkn]
      unfold dlink
      rw [Option.some.inj hget, hblk, dataIds_getElem?]
      unfold freeDblk
      rw [Equiv.symm_apply_apply]
      by_cases hnext : k + 1 < geo.sects - geo.isects - 1
      · rw [if_pos hnext, if_pos hnext]
        change base + UInt32.ofNat k + 1 = UInt32.ofNat (geo.isects + 1 + (k + 1))
        rw [hid k hkn]
        apply UInt32.toNat_inj.mp
        rw [UInt32.toNat_add, toNat_ofNat_of_lt (by omega), toNat_ofNat_of_lt (by omega)]
        change (geo.isects + 1 + k + 1) % 4294967296 = _
        omega
      · rw [if_neg hnext, if_neg hnext]
        rfl

theorem dir_formatDisk (hbase : 0 < base.toNat) (hlt : base.toNat + m ≤ 4294967296) :
    Lfdir.layout.symm (formatDisk base n m disk LF_AREA_DIR) = emptyDir base := by
  unfold formatDisk
  rw [putDblks_of_lt (j := LF_AREA_DIR) hlt hbase, putIblks_dir, upd_self,
    Equiv.symm_apply_apply]

theorem sized_nil : Sized [] [] ([] : List UInt8).length := ⟨by decide, by decide⟩

/-- A formatted disk is a sound file system without files. -/
theorem Formatted.sound (h : HasRoom lfiblks dsiz) (hs : Formatted lfiblks dsiz s) :
    s.lfDirpresent = false ∧
      Sound (geometry h) (loaded s) (Catalog.empty (geometry h)) FileSys.empty := by
  have hfree : s.lfDirpresent = false := by
    rw [hs.started.master]
    rfl
  refine ⟨hfree, ?_⟩
  rcases hs.formatted with ⟨s₀, _, hrun⟩
  have hdisk : s.disk = formatDisk (ibsectors lfiblks + 1) (7 * (geometry h).isects)
      ((geometry h).sects - (geometry h).isects - 1) s₀.disk := by
    rw [run_lfscreate h s₀] at hrun
    split at hrun
    · cases hrun
    · exact congrArg Lfs.disk (congrArg Prod.fst (Option.some.inj hrun)).symm
  have hindex : 0 < (geometry h).isects := h.index
  have hdata : (geometry h).isects + 1 < (geometry h).sects := h.data
  have hlt := (geometry h).sects_lt
  have hbase : (ibsectors lfiblks + 1).toNat = (geometry h).isects + 1 := by
    rw [UInt32.toNat_add]
    change ((geometry h).isects + 1) % 4294967296 = _
    omega
  have hload : loaded s = { s with
      lfDir := emptyDir (ibsectors lfiblks + 1), lfDirpresent := true } := by
    unfold loaded
    rw [if_neg (by rw [hfree]; simp), hdisk, dir_formatDisk (by omega) (by omega)]
  have hblk : ∀ d, (s.lfltab d).lfmutex = 1 ∧ (s.lfltab d).lfstate = .free := by
    intro d
    rw [hs.started.slaves d]
    exact ⟨rfl, rfl⟩
  have hnone : ∀ i, FileSys.empty.content i = [] := fun i => rfl
  rw [hload]
  exact {
    mutex := by
      change s.lfMutex = 1
      rw [hs.started.master]
      rfl
    fmutex := fun d => (hblk d).1
    count := rfl
    few := Nat.zero_le _
    index := Parted.all_free
    data := Parted.all_free
    pool := by
      change Pool s.disk 0 (ibsectors lfiblks + 1) _ _
      rw [hdisk]
      exact pool_formatDisk (geometry h) hindex hdata hbase
    sized := fun _ => sized_nil
    names := fun e he => absurd he (Nat.not_lt_zero _)
    distinct := List.nodup_nil
    idle := fun e he => absurd he (Nat.not_lt_zero _)
    free := fun d _ => (hblk d).2
    live := by
      intro d i pos hd
      cases hd
    apart := by
      intro d d' i p p' hd
      cases hd }

end Format

/-!
## A small disk
-/

/-- A started system with a disk of zeros. -/
def blankSystem : Lfs :=
  { disk := fun _ _ => 0, lfMutex := 1, lfDir := Lfdir.zero, lfDirpresent := false,
    lfDirdirty := false, lfltab := fun d => lflinit d.val, stack := fun _ _ => 0 }

/-- Seven index blocks and four data blocks. -/
def smallSystem : Lfs := { blankSystem with disk := formatDisk 2 7 4 blankSystem.disk }

theorem smallSystem_hasRoom : HasRoom 7 3072 := ⟨by decide, by decide⟩

theorem smallSystem_formatted : Formatted 7 3072 smallSystem where
  started := ⟨rfl, fun _ => rfl⟩
  formatted := by
    refine ⟨blankSystem, ⟨rfl, fun _ => rfl⟩, ?_⟩
    rw [run_lfscreate smallSystem_hasRoom, if_neg (by decide)]
    rfl

end Lfs
end BbbXinu
