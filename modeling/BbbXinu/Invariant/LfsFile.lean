import BbbXinu.Invariant.LfsDisk

/-!
# How a file is laid out

A file is given by the identifiers of its index blocks and data blocks and by
its bytes.  {lit}`FileOk` says that the directory entry, the control block and the
disk hold this file: what is dirty in the control block counts there, and
everything else on the disk.  The theorems say how the file changes when blocks
are loaded, flushed and added, and when a byte is stored.
-/

namespace BbbXinu
namespace Lfs

open Layouts

/-- The contents of an index block of a file. -/
def indexBlock (ibs dbs : List UInt32) (k : Nat) : Lfiblk :=
  { ibNext := (ibs[k + 1]?).getD LF_INULL, ibOffset := UInt32.ofNat (8192 * k),
    ibDba := fun i => (dbs[16 * k + i.val]?).getD LF_DNULL }

/-- The blocks that a control block keeps in memory. -/
def cached (b : Lflcblk) : UInt32 × Lfiblk × Bool × UInt32 × Sector × Bool :=
  (b.lfinum, b.lfiblock, b.lfibdirty, b.lfdnum, b.lfdblock, b.lfdbdirty)

/-- Entry, control block and disk hold the file with the given blocks and bytes. -/
structure FileOk (disk : Nat → Sector) (ent : Ldentry) (blk : Lflcblk)
    (ibs dbs : List UInt32) (bytes : List UInt8) : Prop where
  size : ent.ldSize.toNat = bytes.length
  ilist : ent.ldIlist = ibs.headD LF_INULL
  room : bytes.length ≤ 512 * dbs.length
  inum : (blk.lfinum = LF_INULL ∧ blk.lfibdirty = false) ∨ blk.lfinum ∈ ibs
  dnum : (blk.lfdnum = LF_DNULL ∧ blk.lfdbdirty = false) ∨ blk.lfdnum ∈ dbs
  indexMem : ∀ k, ibs[k]? = some blk.lfinum → blk.lfiblock = indexBlock ibs dbs k
  indexDisk : ∀ k a, ibs[k]? = some a → (blk.lfinum = a → blk.lfibdirty = false) →
    iblkAt disk a = indexBlock ibs dbs k
  dataMem : ∀ p c, bytes[p]? = some c → dbs[p / 512]? = some blk.lfdnum →
    byteAt blk.lfdblock (p % 512) = c
  dataDisk : ∀ p c b, bytes[p]? = some c → dbs[p / 512]? = some b →
    (blk.lfdnum = b → blk.lfdbdirty = false) → byteAt (disk b.toNat) (p % 512) = c

/-- A block stands at one place of a list without repetitions. -/
theorem place_unique {l : List UInt32} {a : UInt32} {i j : Nat} (hn : l.Nodup)
    (hi : l[i]? = some a) (hj : l[j]? = some a) : i = j :=
  (List.getElem?_inj (List.getElem?_eq_some_iff.mp hi).1 hn).mp (hi.trans hj.symm)

/-!
## Index blocks
-/

section Index

variable {ibs dbs : List UInt32} {a b : UInt32} {k j : Nat}

theorem indexBlock_empty (a : UInt32) : lfibclear 0 = indexBlock [a] [] 0 := by
  unfold lfibclear indexBlock
  simp

/-- The index block behind the last one of a file has no data blocks yet. -/
theorem indexBlock_new (hk : k = ibs.length) (hd : dbs.length ≤ 16 * k) :
    lfibclear (UInt32.ofNat (8192 * k)) = indexBlock (ibs ++ [a]) dbs k := by
  have hnext : (ibs ++ [a])[k + 1]? = none := by
    rw [List.getElem?_eq_none_iff]
    simp [hk]
  have hdba : ∀ i : Fin LF_IBLEN, dbs[16 * k + i.val]? = none := by
    intro i
    rw [List.getElem?_eq_none_iff]
    omega
  unfold lfibclear indexBlock
  simp [hnext, hdba]

/-- The last index block of a file after a further one has been added. -/
theorem indexBlock_last (hk : k + 1 = ibs.length) :
    { indexBlock ibs dbs k with ibNext := a } = indexBlock (ibs ++ [a]) dbs k := by
  have hnext : (ibs ++ [a])[k + 1]? = some a := by
    rw [List.getElem?_append_right (by omega)]
    simp [hk]
  unfold indexBlock
  simp [hnext]

theorem indexBlock_append_index (hk : k + 1 < ibs.length) :
    indexBlock (ibs ++ [a]) dbs k = indexBlock ibs dbs k := by
  have hnext : (ibs ++ [a])[k + 1]? = ibs[k + 1]? := List.getElem?_append_left hk
  unfold indexBlock
  rw [hnext]

/-- A data block is added in the index block that its place belongs to. -/
theorem indexBlock_append_data {i : Fin LF_IBLEN} (hi : dbs.length = 16 * k + i.val) :
    { indexBlock ibs dbs k with ibDba := upd (indexBlock ibs dbs k).ibDba i b }
      = indexBlock ibs (dbs ++ [b]) k := by
  have hdba : upd (indexBlock ibs dbs k).ibDba i b = (indexBlock ibs (dbs ++ [b]) k).ibDba := by
    funext j
    change upd _ i b j = ((dbs ++ [b])[16 * k + j.val]?).getD LF_DNULL
    by_cases hj : j = i
    · rw [hj, upd_self, ← hi]
      simp
    · have hne : j.val ≠ i.val := fun h => hj (Fin.ext h)
      rw [upd_of_ne hj]
      change (dbs[16 * k + j.val]?).getD LF_DNULL = _
      by_cases hlt : 16 * k + j.val < dbs.length
      · rw [List.getElem?_append_left hlt]
      · rw [List.getElem?_eq_none_iff.mpr (by omega),
          List.getElem?_eq_none_iff.mpr (by simp; omega)]
  rw [hdba]
  rfl

theorem indexBlock_append_data_of_ne (h : dbs.length / 16 ≠ k) :
    indexBlock ibs (dbs ++ [b]) k = indexBlock ibs dbs k := by
  unfold indexBlock
  congr 1
  funext j
  have hj : j.val < 16 := j.isLt
  by_cases hlt : 16 * k + j.val < dbs.length
  · rw [List.getElem?_append_left hlt]
  · rw [List.getElem?_eq_none_iff.mpr (by simp; omega),
      List.getElem?_eq_none_iff.mpr (by omega)]

theorem indexBlock_offset (h : 8192 * k < 4294967296) :
    (indexBlock ibs dbs k).ibOffset.toNat = 8192 * k := by
  change (UInt32.ofNat (8192 * k)).toNat = _
  rw [UInt32.toNat_ofNat', Nat.mod_eq_of_lt h]

end Index

/-!
## Bytes
-/

theorem byteAt_storeByte_self {b : Sector} {i : Nat} {ch : UInt8} (h : i < LF_BLKSIZ) :
    byteAt (storeByte b i ch) i = ch := by
  unfold byteAt storeByte
  rw [dif_pos h, if_pos rfl]

theorem byteAt_storeByte_of_ne {b : Sector} {i j : Nat} {ch : UInt8} (h : j ≠ i) :
    byteAt (storeByte b i ch) j = byteAt b j := by
  unfold byteAt storeByte
  by_cases hj : j < LF_BLKSIZ
  · rw [dif_pos hj, dif_pos hj, if_neg h]
  · rw [dif_neg hj, dif_neg hj]

theorem putByte_getElem? {bytes : List UInt8} {p q : Nat} {ch : UInt8} (hp : p ≤ bytes.length) :
    (putByte bytes p ch)[q]? = if q = p then some ch else bytes[q]? := by
  unfold putByte
  by_cases hlt : p < bytes.length
  · rw [if_pos hlt, List.getElem?_set]
    by_cases hq : q = p
    · rw [if_pos hq.symm, if_pos hq, if_pos hlt]
    · rw [if_neg (fun h => hq h.symm), if_neg hq]
  · have heq : p = bytes.length := by omega
    rw [if_neg hlt]
    by_cases hq : q = p
    · rw [if_pos hq, hq, heq]
      simp
    · rw [if_neg hq]
      by_cases hq' : q < bytes.length
      · rw [List.getElem?_append_left hq']
      · rw [List.getElem?_eq_none_iff.mpr (by simp; omega),
          List.getElem?_eq_none_iff.mpr (by omega)]

theorem putByte_length {bytes : List UInt8} {p : Nat} {ch : UInt8} (hp : p ≤ bytes.length) :
    (putByte bytes p ch).length = max bytes.length (p + 1) := by
  unfold putByte
  by_cases hlt : p < bytes.length
  · rw [if_pos hlt, List.length_set]
    omega
  · rw [if_neg hlt, List.length_append]
    simp
    omega

/-!
## Changes of a file
-/

namespace FileOk

variable {disk disk' : Nat → Sector} {ent : Ldentry} {blk : Lflcblk} {ibs dbs : List UInt32}
  {bytes : List UInt8} {a b : UInt32} {k : Nat}

/-- A file only depends on the blocks in its control block and whether they are dirty. -/
theorem congrBlk {blk' : Lflcblk} (h : FileOk disk ent blk ibs dbs bytes)
    (heq : cached blk' = cached blk) : FileOk disk ent blk' ibs dbs bytes := by
  simp only [cached, Prod.mk.injEq] at heq
  rcases heq with ⟨h1, h2, h3, h4, h5, h6⟩
  exact { size := h.size
          ilist := h.ilist
          room := h.room
          inum := by
            rw [h1, h3]
            exact h.inum
          dnum := by
            rw [h4, h6]
            exact h.dnum
          indexMem := by
            rw [h1, h2]
            exact h.indexMem
          indexDisk := by
            rw [h1, h3]
            exact h.indexDisk
          dataMem := by
            rw [h4, h5]
            exact h.dataMem
          dataDisk := by
            rw [h4, h6]
            exact h.dataDisk }

/-- A file only depends on its own blocks of the disk. -/
theorem congr (h : FileOk disk ent blk ibs dbs bytes)
    (hi : ∀ a ∈ ibs, iblkAt disk' a = iblkAt disk a)
    (hd : ∀ b ∈ dbs, disk' b.toNat = disk b.toNat) : FileOk disk' ent blk ibs dbs bytes where
  size := h.size
  ilist := h.ilist
  room := h.room
  inum := h.inum
  dnum := h.dnum
  indexMem := h.indexMem
  indexDisk k a hk hc := by
    rw [hi a (List.mem_of_getElem? hk)]
    exact h.indexDisk k a hk hc
  dataMem := h.dataMem
  dataDisk p c b hp hb hc := by
    rw [hd b (List.mem_of_getElem? hb)]
    exact h.dataDisk p c b hp hb hc

/-- A clean control block may forget its index block, or have any other one loaded. -/
theorem loadIndex (h : FileOk disk ent blk ibs dbs bytes) (hclean : blk.lfibdirty = false)
    (hn : ibs.Nodup) (hk : ibs[k]? = some a) :
    FileOk disk ent { blk with lfinum := a, lfiblock := iblkAt disk a } ibs dbs bytes where
  size := h.size
  ilist := h.ilist
  room := h.room
  inum := Or.inr (List.mem_of_getElem? hk)
  dnum := h.dnum
  indexMem j hj := by
    rw [place_unique hn hj hk]
    exact h.indexDisk k a hk fun _ => hclean
  indexDisk j a' hj _ := h.indexDisk j a' hj fun _ => hclean
  dataMem := h.dataMem
  dataDisk := h.dataDisk

theorem dropData (h : FileOk disk ent blk ibs dbs bytes) (hclean : blk.lfdbdirty = false)
    (hnull : LF_DNULL ∉ dbs) (c : Sector) :
    FileOk disk ent { blk with lfdnum := LF_DNULL, lfdblock := c } ibs dbs bytes where
  size := h.size
  ilist := h.ilist
  room := h.room
  inum := h.inum
  dnum := Or.inl ⟨rfl, hclean⟩
  indexMem := h.indexMem
  indexDisk := h.indexDisk
  dataMem _ _ _ hb := absurd (List.mem_of_getElem? hb) hnull
  dataDisk p c b hp hb _ := h.dataDisk p c b hp hb fun _ => hclean

theorem loadData (h : FileOk disk ent blk ibs dbs bytes) (hclean : blk.lfdbdirty = false)
    (hb : b ∈ dbs) :
    FileOk disk ent { blk with lfdnum := b, lfdblock := disk b.toNat } ibs dbs bytes where
  size := h.size
  ilist := h.ilist
  room := h.room
  inum := h.inum
  dnum := Or.inr hb
  indexMem := h.indexMem
  indexDisk := h.indexDisk
  dataMem p c hp hb := h.dataDisk p c b hp hb fun _ => hclean
  dataDisk p c b hp hb _ := h.dataDisk p c b hp hb fun _ => hclean

/-- The data block is written back. -/
theorem flushData (h : FileOk disk ent blk ibs dbs bytes)
    (hd : blk.lfdnum ∈ dbs) (hi : ∀ a ∈ ibs, ib2sect a ≠ blk.lfdnum.toNat) :
    FileOk (upd disk blk.lfdnum.toNat blk.lfdblock) ent { blk with lfdbdirty := false }
      ibs dbs bytes where
  size := h.size
  ilist := h.ilist
  room := h.room
  inum := h.inum
  dnum := Or.inr hd
  indexMem := h.indexMem
  indexDisk k a hk hc := by
    rw [iblkAt_upd (hi a (List.mem_of_getElem? hk))]
    exact h.indexDisk k a hk hc
  dataMem := h.dataMem
  dataDisk p c b hp hb _ := by
    by_cases hbd : b = blk.lfdnum
    · rw [hbd, upd_self]
      exact h.dataMem p c hp (hbd ▸ hb)
    · rw [upd_of_ne fun heq => hbd (UInt32.toNat_inj.mp heq)]
      exact h.dataDisk p c b hp hb fun heq => absurd heq.symm hbd

/-- The index block is written back. -/
theorem flushIndex (h : FileOk disk ent blk ibs dbs bytes) (ha : blk.lfinum ∈ ibs)
    (hd : ∀ b ∈ dbs, b.toNat ≠ ib2sect blk.lfinum) :
    FileOk (putIblk disk blk.lfinum blk.lfiblock) ent { blk with lfibdirty := false }
      ibs dbs bytes where
  size := h.size
  ilist := h.ilist
  room := h.room
  inum := Or.inr ha
  dnum := h.dnum
  indexMem := h.indexMem
  indexDisk k a hk _ := by
    by_cases hak : a = blk.lfinum
    · rw [hak, iblkAt_putIblk_self]
      exact h.indexMem k (hak ▸ hk)
    · rw [iblkAt_putIblk_of_ne hak]
      exact h.indexDisk k a hk fun heq => absurd heq.symm hak
  dataMem := h.dataMem
  dataDisk p c b hp hb hc := by
    rw [putIblk_of_ne (hd b (List.mem_of_getElem? hb))]
    exact h.dataDisk p c b hp hb hc

/-- An empty file gets its first index block. -/
theorem newIndex (h : FileOk disk ent blk [] [] bytes) (hclean : blk.lfdbdirty = false) :
    FileOk disk { ent with ldIlist := a }
      { blk with lfinum := a, lfiblock := lfibclear 0, lfibdirty := true } [a] [] bytes where
  size := h.size
  ilist := rfl
  room := h.room
  inum := Or.inr (by simp)
  dnum := h.dnum
  indexMem j hj := by
    rcases List.getElem?_eq_some_iff.mp hj with ⟨hj1, _⟩
    have hj0 : j = 0 := by simpa using hj1
    rw [hj0]
    exact indexBlock_empty a
  indexDisk j a' hj hc := by
    rcases List.getElem?_eq_some_iff.mp hj with ⟨hj1, hj2⟩
    have hj0 : j = 0 := by simpa using hj1
    subst hj0
    exact absurd (hc hj2) (by simp)
  dataMem := h.dataMem
  dataDisk p c b hp hb _ := h.dataDisk p c b hp hb fun _ => hclean

/-- A file gets a further index block behind its last one, which is written. -/
theorem appendIndex (h : FileOk disk ent blk ibs dbs bytes) (hclean : blk.lfibdirty = false)
    (hn : (ibs ++ [a]).Nodup) (hk : k + 1 = ibs.length) (hb : ibs[k]? = some b)
    (hfull : dbs.length ≤ 16 * ibs.length) (hd : ∀ c ∈ dbs, c.toNat ≠ ib2sect b) :
    FileOk (putIblk disk b (indexBlock (ibs ++ [a]) dbs k)) ent
      { blk with lfinum := a, lfiblock := lfibclear (UInt32.ofNat (8192 * (k + 1))),
                 lfibdirty := true } (ibs ++ [a]) dbs bytes where
  size := h.size
  ilist := by
    rw [h.ilist]
    cases ibs with
    | nil => simp at hk
    | cons x l => rfl
  room := h.room
  inum := Or.inr (by simp)
  dnum := h.dnum
  indexMem j hj := by
    have hlast : (ibs ++ [a])[k + 1]? = some a := by
      rw [List.getElem?_append_right (by omega)]
      simp [hk]
    rw [place_unique hn hj hlast]
    exact indexBlock_new hk (by omega)
  indexDisk j a' hj hc := by
    have hja : a' ≠ a := by
      intro heq
      exact absurd (hc heq.symm) (by simp)
    rcases List.getElem?_eq_some_iff.mp hj with ⟨hj1, hj2⟩
    have hjlt : j < ibs.length := by
      by_contra hge
      have hjeq : j = ibs.length := by
        simp at hj1
        omega
      subst hjeq
      simp at hj2
      exact hja hj2.symm
    have hj' : ibs[j]? = some a' := by
      rw [← hj, List.getElem?_append_left hjlt]
    by_cases hjk : j = k
    · subst hjk
      have hab : a' = b := by
        rw [hj'] at hb
        exact Option.some.inj hb
      rw [hab, iblkAt_putIblk_self]
    · have hab : a' ≠ b := by
        intro heq
        rw [heq] at hj'
        exact hjk (place_unique (List.nodup_append.mp hn).1 hj' hb)
      rw [iblkAt_putIblk_of_ne hab, indexBlock_append_index (by omega)]
      exact h.indexDisk j a' hj' fun _ => hclean
  dataMem := h.dataMem
  dataDisk p c b' hp hb' hc := by
    rw [putIblk_of_ne (hd b' (List.mem_of_getElem? hb'))]
    exact h.dataDisk p c b' hp hb' hc

/-- A file gets a further data block in the index block in memory. -/
theorem appendData (h : FileOk disk ent blk ibs dbs bytes) (hclean : blk.lfdbdirty = false)
    (hni : ibs.Nodup) (hn : b ∉ dbs) (hk : ibs[k]? = some blk.lfinum) {i : Fin LF_IBLEN}
    (hi : dbs.length = 16 * k + i.val) (c : Sector) :
    FileOk disk ent
      { blk with
        lfiblock := { blk.lfiblock with ibDba := upd blk.lfiblock.ibDba i b },
        lfibdirty := true, lfdnum := b, lfdblock := c } ibs (dbs ++ [b]) bytes where
  size := h.size
  ilist := h.ilist
  room := by
    have := h.room
    rw [List.length_append]
    omega
  inum := Or.inr (List.mem_of_getElem? hk)
  dnum := Or.inr (by simp)
  indexMem j hj := by
    rw [place_unique hni hj hk]
    change { blk.lfiblock with ibDba := upd blk.lfiblock.ibDba i b } = _
    rw [h.indexMem k hk]
    exact indexBlock_append_data hi
  indexDisk j a' hj hc := by
    have hj16 : i.val < 16 := i.isLt
    have hjk : dbs.length / 16 ≠ j := by
      intro heq
      have hjk : j = k := by omega
      rw [hjk, hk] at hj
      exact absurd (hc (Option.some.inj hj)) (by simp)
    rw [indexBlock_append_data_of_ne hjk]
    refine h.indexDisk j a' hj ?_
    intro heq
    exact absurd (hc heq) (by simp)
  dataMem p c' hp hb := by
    have hlt : p < bytes.length := (List.getElem?_eq_some_iff.mp hp).1
    have hroom := h.room
    rw [List.getElem?_append_left (by omega)] at hb
    exact absurd (List.mem_of_getElem? hb) hn
  dataDisk p c' b' hp hb _ := by
    have hlt : p < bytes.length := (List.getElem?_eq_some_iff.mp hp).1
    have hroom := h.room
    rw [List.getElem?_append_left (by omega)] at hb
    exact h.dataDisk p c' b' hp hb fun _ => hclean

/-- A byte is stored in the data block in memory. -/
theorem storeByte (h : FileOk disk ent blk ibs dbs bytes) (hn : dbs.Nodup) {p : Nat} {ch : UInt8}
    (hp : p ≤ bytes.length) (hb : dbs[p / 512]? = some blk.lfdnum) {size : UInt32}
    (hsize : size.toNat = max bytes.length (p + 1)) :
    FileOk disk { ent with ldSize := size }
      { blk with lfdblock := Lfs.storeByte blk.lfdblock (p % 512) ch, lfdbdirty := true }
      ibs dbs (putByte bytes p ch) where
  size := by
    rw [putByte_length hp]
    exact hsize
  ilist := h.ilist
  room := by
    have hroom := h.room
    rcases List.getElem?_eq_some_iff.mp hb with ⟨h1, _⟩
    rw [putByte_length hp]
    omega
  inum := h.inum
  dnum := Or.inr (List.mem_of_getElem? hb)
  indexMem := h.indexMem
  indexDisk := h.indexDisk
  dataMem q c hq hbq := by
    rw [putByte_getElem? hp] at hq
    have hsame : q / 512 = p / 512 := place_unique hn hbq hb
    by_cases hqp : q = p
    · rw [if_pos hqp] at hq
      rw [hqp, ← Option.some.inj hq]
      exact byteAt_storeByte_self (Nat.mod_lt p (by decide))
    · rw [if_neg hqp] at hq
      have hne : q % 512 ≠ p % 512 := by omega
      change byteAt (Lfs.storeByte blk.lfdblock (p % 512) ch) (q % 512) = c
      rw [byteAt_storeByte_of_ne hne]
      exact h.dataMem q c hq hbq
  dataDisk q c b hq hbq hc := by
    rw [putByte_getElem? hp] at hq
    by_cases hqp : q = p
    · rw [hqp, hb] at hbq
      exact absurd (hc (Option.some.inj hbq)) (by simp)
    · rw [if_neg hqp] at hq
      exact h.dataDisk q c b hq hbq fun heq => absurd (hc heq) (by simp)

end FileOk

end Lfs
end BbbXinu
