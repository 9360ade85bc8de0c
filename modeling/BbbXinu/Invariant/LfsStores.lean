import BbbXinu.Invariant.LfsCalls

/-!
# The calls that change a file, run without interruption

How many blocks the files take is counted from the bytes.  A byte that needs a
block when none is free would make the files too large for the disk, which is
when {lit}`lflputc` stops the system.
-/

namespace BbbXinu
namespace Lfs

open Layouts Prog

/-!
## Counting blocks
-/

section Counting

variable {geo : Geometry} {s : Lfs} {C : Catalog} {f : FileSys} {d : Fin Nlfl} {i pos : Nat}

/-- A sum over the files is one over all entries, the unused ones counting nothing. -/
theorem sum_range_getElem? {β : Type} (G : β → Nat) (l : List β) {n : Nat} (h : l.length ≤ n) :
    ((List.range n).map fun k => ((l[k]?).map G).getD 0).sum = (l.map G).sum := by
  induction l generalizing n with
  | nil => simp
  | cons b l ih =>
      cases n with
      | zero => simp at h
      | succ n =>
          rw [List.range_succ_eq_map, List.map_cons, List.sum_cons, List.map_map, List.map_cons,
            List.sum_cons]
          have hrest := ih (n := n) (by simpa using h)
          rw [← hrest]
          rfl

theorem sum_modify {β : Type} (G : β → Nat) (u : β → β) (l : List β) {i : Nat} {b : β}
    (h : l[i]? = some b) :
    ((l.modify i u).map G).sum + G b = (l.map G).sum + G (u b) := by
  induction l generalizing i with
  | nil => simp at h
  | cons x l ih =>
      cases i with
      | zero =>
          simp only [List.getElem?_cons_zero, Option.some.injEq] at h
          subst h
          simp only [List.modify_zero_cons, List.map_cons, List.sum_cons]
          omega
      | succ i =>
          simp only [List.getElem?_cons_succ] at h
          have hrest := ih h
          simp only [List.modify_succ_cons, List.map_cons, List.sum_cons]
          omega

/-- The room for the files, by the length of the file of each entry. -/
theorem sum_content {g : Nat → Nat} (hg : g 0 = 0) (h : f.files.length ≤ LF_NUM_DIR_ENT) :
    ((List.finRange LF_NUM_DIR_ENT).map fun e => g (f.content e.val).length).sum
      = (f.files.map fun x => g x.2.length).sum := by
  rw [← sum_range_getElem? (fun x => g x.2.length) f.files h, ← List.map_coe_finRange_eq_range,
    List.map_map]
  congr 1
  apply List.map_congr_left
  intro e _
  unfold FileSys.content
  change g _ = ((f.files[e.val]?).map _).getD 0
  cases f.files[e.val]? with
  | none => exact hg
  | some x => rfl

/-- Free data blocks and those of the files are all data blocks. -/
theorem Sound.dataBlocks (h : Sound geo s C f) :
    C.dl.length + f.dataBlocks = (dataIds geo).length := by
  rw [← h.data.length]
  have hsum := sum_content (g := fun n => (n + 511) / 512) (by decide) h.few
  have hmap : ((List.finRange LF_NUM_DIR_ENT).map fun e =>
      ((f.content e.val).length + 511) / 512)
      = (List.finRange LF_NUM_DIR_ENT).map fun e => (C.dbs e).length :=
    List.map_congr_left fun e _ => (h.sized e).data.symm
  unfold FileSys.dataBlocks
  rw [← hsum, hmap]

theorem Sound.indexBlocks (h : Sound geo s C f) :
    C.il.length + f.indexBlocks = (indexIds geo).length := by
  rw [← h.index.length]
  have hsum := sum_content (g := fun n => (n + 8191) / 8192) (by decide) h.few
  have hmap : ((List.finRange LF_NUM_DIR_ENT).map fun e =>
      ((f.content e.val).length + 8191) / 8192)
      = (List.finRange LF_NUM_DIR_ENT).map fun e => (C.ibs e).length :=
    List.map_congr_left fun e _ => (h.sized e).index.symm
  unfold FileSys.indexBlocks
  rw [← hsum, hmap]

/-- The files that are there always fit. -/
theorem Sound.fits (h : Sound geo s C f) : Fits geo f := by
  have h1 := h.dataBlocks
  have h2 := h.indexBlocks
  exact ⟨by omega, by omega⟩

theorem content_eq {b : List UInt8 × List UInt8} (h : f.files[i]? = some b) : f.content i = b.2 := by
  unfold FileSys.content
  rw [h]
  rfl

theorem dataBlocks_setContent (hi : i < f.files.length) (bytes : List UInt8) :
    (f.setContent i bytes).dataBlocks + ((f.content i).length + 511) / 512
      = f.dataBlocks + (bytes.length + 511) / 512 := by
  have hsome : f.files[i]? = some f.files[i] := List.getElem?_eq_getElem hi
  rw [content_eq hsome]
  exact sum_modify (fun x : List UInt8 × List UInt8 => (x.2.length + 511) / 512) _ f.files hsome

theorem indexBlocks_setContent (hi : i < f.files.length) (bytes : List UInt8) :
    (f.setContent i bytes).indexBlocks + ((f.content i).length + 8191) / 8192
      = f.indexBlocks + (bytes.length + 8191) / 8192 := by
  have hsome : f.files[i]? = some f.files[i] := List.getElem?_eq_getElem hi
  rw [content_eq hsome]
  exact sum_modify (fun x : List UInt8 × List UInt8 => (x.2.length + 8191) / 8192) _ f.files hsome

/-- A file that needs a data block when none is free does not fit. -/
theorem Sound.notFits_data (h : Sound geo s C f) (hi : i < f.files.length)
    {e : Fin LF_NUM_DIR_ENT} (he : e.val = i) {bytes : List UInt8} (hdl : C.dl = [])
    (hneed : (C.dbs e).length < (bytes.length + 511) / 512) : ¬Fits geo (f.setContent i bytes) := by
  intro hfits
  have h1 := h.dataBlocks
  have h2 := dataBlocks_setContent hi bytes
  have h3 := (h.sized e).data
  have h4 := hfits.1
  rw [he] at h3
  rw [hdl, List.length_nil] at h1
  omega

theorem Sound.notFits_index (h : Sound geo s C f) (hi : i < f.files.length)
    {e : Fin LF_NUM_DIR_ENT} (he : e.val = i) {bytes : List UInt8} (hil : C.il = [])
    (hneed : (C.ibs e).length < (bytes.length + 8191) / 8192) :
    ¬Fits geo (f.setContent i bytes) := by
  intro hfits
  have h1 := h.indexBlocks
  have h2 := indexBlocks_setContent hi bytes
  have h3 := (h.sized e).index
  have h4 := hfits.2
  rw [he] at h3
  rw [hil, List.length_nil] at h1
  omega

end Counting

/-!
## Storing a byte
-/

section Stores

variable {geo : Geometry} {s : Lfs} {C : Catalog} {f : FileSys}

/-- The byte is stored, in a file whose size already covers it. -/
theorem SetUp.store {d : Fin Nlfl} {i pos : Nat} {s₂ : Lfs} {il dl ibs dbs : List UInt32}
    (hset : SetUp geo s C f d i pos s₂ il dl ibs dbs) (h : Sound geo s C f)
    (hd : f.opens d = some (i, pos)) (s₃ : Lfs) (size : UInt32) (ch : UInt8)
    (hsize : size.toNat = max (f.content i).length (pos + 1))
    (ht : Touch geo d (s.lfltab d).lfdirptr (C.ownI (s.lfltab d).lfdirptr)
      (C.ownD (s.lfltab d).lfdirptr) s₂ s₃)
    (hmutex : s₃.lfMutex = s₂.lfMutex)
    (hview : s₃.view d (s.lfltab d).lfdirptr = { s₂.view d (s.lfltab d).lfdirptr with
      ent := { (s₂.view d (s.lfltab d).lfdirptr).ent with ldSize := size } }) :
    ∃ s' C', run (do
        modify fun s => s.setBlk d fun blk =>
          { blk with
            lfdblock := storeByte blk.lfdblock blk.lfbyte ch, lfbyte := blk.lfbyte + 1,
            lfpos := blk.lfpos + 1, lfdbdirty := true }
        signalFile d
        return OK) s₃ = some (s', OK) ∧
      Sound geo s' C' ((f.setContent i (putByte (f.content i) pos ch)).setOpen d
        (some (i, pos + 1))) ∧ Same s s' := by
  have hlive := h.live d i pos hd
  have hblk₃ : s₃.lfltab d = s₂.lfltab d := congrArg View.blk hview
  generalize hs' : unlock d (s₃.setBlk d fun blk => { blk with
    lfdblock := storeByte blk.lfdblock blk.lfbyte ch, lfbyte := blk.lfbyte + 1,
    lfpos := blk.lfpos + 1, lfdbdirty := true }) = s'
  have hblk : s'.lfltab d = { s₂.lfltab d with
      lfdblock := storeByte (s₂.lfltab d).lfdblock (pos % 512) ch,
      lfbyte := (s₂.lfltab d).lfbyte + 1, lfpos := (s₂.lfltab d).lfpos + 1, lfdbdirty := true,
      lfmutex := (s₂.lfltab d).lfmutex + 1 } := by
    rw [← hs', unlock, lfltab_setBlk, lfltab_setBlk, hblk₃, ← hset.lfbyte]
  have ht' : Touch geo d (s.lfltab d).lfdirptr (C.ownI (s.lfltab d).lfdirptr)
      (C.ownD (s.lfltab d).lfdirptr) s₂ s' := by
    rw [← hs']
    exact ht.trans ((touch_setBlk rfl).trans (touch_setBlk rfl))
  have hview' : s'.view d (s.lfltab d).lfdirptr = { s₂.view d (s.lfltab d).lfdirptr with
      ent := { (s₂.view d (s.lfltab d).lfdirptr).ent with ldSize := size },
      blk := s'.lfltab d } := by
    have hrest : s'.view d (s.lfltab d).lfdirptr
        = { s₃.view d (s.lfltab d).lfdirptr with blk := s'.lfltab d } := by
      rw [← hs']
      rfl
    rw [hrest, hview]
  have hholds : Holds (s'.view d (s.lfltab d).lfdirptr) il dl ibs dbs
      (putByte (f.content i) pos ch) := by
    rw [hview', hblk]
    exact { file := (hset.holds.file.storeByte hset.shares.dbs_nodup hlive.le hset.here
              hsize).congrBlk rfl
            pool := hset.holds.pool }
  rcases hset.finish h hd _ ht' (by rw [← hmutex, ← hs']; rfl) hholds (putByte_length hlive.le)
    (by rw [hblk]) (by rw [hblk]) (by rw [hblk]) (by rw [hblk]) with ⟨C', hsound, hsame⟩
  refine ⟨s', C', ?_, hsound, hsame⟩
  rw [← hs']
  rfl

theorem Sound.lflputc (h : Sound geo s C f) (d : Fin Nlfl) (ch : UInt8) :
    Serves geo s (lflputc d ch) (f.putc d ch).2 (f.putc d ch).1 := by
  unfold Lfs.lflputc
  cases hd : f.opens d with
  | none =>
      have hspec : f.putc d ch = (f, SYSERR) := by
        unfold FileSys.putc
        rw [hd]
      rw [hspec]
      exact h.refused (run_closed (h.fmutex d) (h.free d hd))
  | some o =>
      rcases o with ⟨i, pos⟩
      have hlive := h.live d i pos hd
      have hcond : ¬((lock d s).entryOf d).ldSize < ((lock d s).lfltab d).lfpos := by
        rw [entryOf_lock, lock_lfltab, UInt32.lt_iff_toNat_lt, hlive.file.size, hlive.lfpos]
        exact Nat.not_lt.mpr hlive.le
      have hspec : f.putc d ch
          = ((f.setContent i (putByte (f.content i) pos ch)).setOpen d (some (i, pos + 1)), OK) := by
        unfold FileSys.putc
        rw [hd]
      rw [hspec]
      have hlen : (putByte (f.content i) pos ch).length = max (f.content i).length (pos + 1) :=
        putByte_length hlive.le
      have hfull : ¬Fits geo (f.setContent i (putByte (f.content i) pos ch)) →
          ¬Fits geo ((f.setContent i (putByte (f.content i) pos ch)).setOpen d
            (some (i, pos + 1))) := id
      unfold Serves
      rw [h.run_open hd, if_neg hcond]
      have hstopI : C.il = [] → (C.ibs (s.lfltab d).lfdirptr).length ≤ pos / 8192 →
          ¬Fits geo (f.setContent i (putByte (f.content i) pos ch)) :=
        fun hil hle => h.notFits_index hlive.lt hlive.entry hil (by omega)
      rcases h.prepare hd hstopI
        (fun hdl hle => h.notFits_data hlive.lt hlive.entry hdl (by omega)) _ with
        ⟨s₂, il, dl, ibs, dbs, hrun, hset⟩ | ⟨hnone, hstop⟩
      · left
        rw [hrun]
        have hptr := hset.ptr
        have hfsize : (s₂.entryOf d).ldSize.toNat = (f.content i).length := by
          unfold Lfs.entryOf
          rw [hptr]
          exact hset.holds.file.size
        change ∃ s' C', run (when (decide ((s₂.entryOf d).ldSize ≤ (s₂.lfltab d).lfpos)) _ >>= _)
          s₂ = _ ∧ _
        have hgrow : (s₂.entryOf d).ldSize ≤ (s₂.lfltab d).lfpos ↔ (f.content i).length ≤ pos := by
          rw [UInt32.le_iff_toNat_le, hfsize, hset.lfpos, hlive.lfpos]
        by_cases hend : (f.content i).length ≤ pos
        · -- a byte is appended
          have hdlen := hset.shares.data_length_lt
          have hlt := (List.getElem?_eq_some_iff.mp hset.here).1
          rw [decide_eq_true (hgrow.mpr hend)]
          apply hset.store h hd ((s₂.setEntry (s₂.lfltab d).lfdirptr fun e =>
            { e with ldSize := e.ldSize + 1 }).setDirdirty true) ((s₂.entryOf d).ldSize + 1) ch
          · rw [UInt32.toNat_add, hfsize]
            change ((f.content i).length + 1) % 4294967296 = _
            have := hlive.le
            omega
          · rw [hptr]
            exact (within_setEntry rfl).touch.trans within_setDirdirty.touch
          · rfl
          · rw [view_setDirdirty, hptr, view_setEntry]
            unfold Lfs.entryOf
            rw [hptr]
            rfl
        · rw [decide_eq_false fun hle => hend (hgrow.mp hle)]
          apply hset.store h hd s₂ (s₂.entryOf d).ldSize ch
          · rw [hfsize]
            omega
          · exact (Within.refl s₂).touch
          · rfl
          · unfold Lfs.entryOf
            rw [hptr]
            rfl
      · right
        exact ⟨hnone, hfull hstop⟩

/-!
### Storing many bytes
-/

theorem putBytes_length {l : List UInt8} :
    ∀ {bytes : List UInt8} {p : Nat}, p ≤ bytes.length →
      (putBytes bytes p l).length = max bytes.length (p + l.length) := by
  induction l with
  | nil =>
      intro bytes p hp
      change bytes.length = max bytes.length (p + 0)
      omega
  | cons ch l ih =>
      intro bytes p hp
      have hput : (putByte bytes p ch).length = max bytes.length (p + 1) := putByte_length hp
      change (putBytes (putByte bytes p ch) (p + 1) l).length = _
      rw [ih (by omega), hput, List.length_cons]
      omega

theorem setContent_setContent {i : Nat} {bytes bytes' : List UInt8} :
    (f.setContent i bytes).setContent i bytes' = f.setContent i bytes' := by
  unfold FileSys.setContent
  congr 1
  apply List.ext_getElem?
  intro j
  simp only [List.getElem?_modify]
  cases f.files[j]? with
  | none => rfl
  | some x =>
      by_cases h : i = j
      · simp [h]
      · simp [h]

/-- A longer file needs no less room. -/
theorem fits_mono {i : Nat} (hi : i < f.files.length) {bytes bytes' : List UInt8}
    (hle : bytes.length ≤ bytes'.length) (hfits : Fits geo (f.setContent i bytes')) :
    Fits geo (f.setContent i bytes) := by
  have h1 := dataBlocks_setContent hi bytes
  have h2 := dataBlocks_setContent hi bytes'
  have h3 := indexBlocks_setContent hi bytes
  have h4 := indexBlocks_setContent hi bytes'
  have h5 := hfits.1
  have h6 := hfits.2
  constructor
  · omega
  · omega

/-- The body of the loop of {lit}`lflwrite`. -/
def writeRound (d : Fin Nlfl) (buff : Nat → UInt8) (count : Int) (i : Nat) : Prog Lfs (Nat ⊕ Int) :=
  if count ≤ i then return .inr count
  else do
    let r ← Lfs.lflputc d (buff i)
    if r = SYSERR then return .inr SYSERR
    else return .inl (i + 1)

theorem run_writeRound {d : Fin Nlfl} {buff : Nat → UInt8} {count : Int} {j : Nat}
    (h : ¬count ≤ j) :
    run (writeRound d buff count j) s = (run (Lfs.lflputc d (buff j)) s).bind fun t =>
      run (if t.2 = SYSERR then return .inr SYSERR else return .inl (j + 1)) t.1 := by
  unfold writeRound
  rw [if_neg h, run_bind]

theorem Sound.run_write (h : Sound geo s C f) {d : Fin Nlfl} {i pos : Nat}
    (hd : f.opens d = some (i, pos)) {buff : Nat → UInt8} {count : Int} {j k : Nat}
    (hcount : count = (j + k : Nat)) :
    (∃ s' C', run (loop (writeRound d buff count) (k + 1) j) s = some (s', count) ∧
      Sound geo s' C' ((f.setContent i (putBytes (f.content i) pos
        ((List.range' j k).map buff))).setOpen d (some (i, pos + k))) ∧ Same s s') ∨
    (run (loop (writeRound d buff count) (k + 1) j) s = none ∧
      ¬Fits geo (f.setContent i (putBytes (f.content i) pos ((List.range' j k).map buff)))) := by
  induction k generalizing s C f pos j with
  | zero =>
      left
      refine ⟨s, C, ?_, ?_, Same.refl s⟩
      · rw [run_loop]
        unfold writeRound
        rw [if_pos (by omega)]
        rfl
      · change Sound geo s C ((f.setContent i (f.content i)).setOpen d (some (i, pos + 0)))
        rw [setContent_self (h.live d i pos hd).lt, Nat.add_zero, setOpen_self hd]
        exact h
  | succ k ih =>
      have hlive := h.live d i pos hd
      generalize hbytes : putByte (f.content i) pos (buff j) = bytes
      have hlen : bytes.length = max (f.content i).length (pos + 1) := by
        rw [← hbytes]
        exact putByte_length hlive.le
      have hputs : putBytes (f.content i) pos ((List.range' j (k + 1)).map buff)
          = putBytes bytes (pos + 1) ((List.range' (j + 1) k).map buff) := by
        rw [List.range'_succ, List.map_cons, ← hbytes]
        rfl
      have hspec : f.putc d (buff j)
          = ((f.setContent i bytes).setOpen d (some (i, pos + 1)), OK) := by
        unfold FileSys.putc
        rw [hd, ← hbytes]
      have hput := h.lflputc d (buff j)
      rw [hspec] at hput
      rw [run_loop, run_writeRound (by omega), hputs]
      rcases hput with ⟨s₁, C₁, hrun, hsound, hsame⟩ | ⟨hnone, hno⟩
      · rw [hrun]
        have hcontent : ((f.setContent i bytes).setOpen d (some (i, pos + 1))).content i = bytes :=
          content_setContent_self hlive.lt
        have hrest := ih hsound opens_setOpen (j := j + 1) (by omega)
        rw [hcontent] at hrest
        have hset : ∀ l, ((f.setContent i bytes).setOpen d (some (i, pos + 1))).setContent i l
            = (f.setContent i l).setOpen d (some (i, pos + 1)) := by
          intro l
          change ((f.setContent i bytes).setContent i l).setOpen d (some (i, pos + 1)) = _
          rw [setContent_setContent]
        rw [hset] at hrest
        rcases hrest with ⟨s₂, C₂, hrun₂, hsound₂, hsame₂⟩ | ⟨hnone, hno⟩
        · left
          rw [setOpen_setOpen, Nat.add_assoc, Nat.add_comm 1 k] at hsound₂
          exact ⟨s₂, C₂, hrun₂, hsound₂, hsame.trans hsame₂⟩
        · right
          exact ⟨hnone, hno⟩
      · right
        rw [hnone]
        refine ⟨rfl, ?_⟩
        intro hfits
        refine hno (fits_mono hlive.lt ?_ hfits)
        rw [putBytes_length (by omega)]
        omega

theorem Sound.lflwrite (h : Sound geo s C f) (d : Fin Nlfl) (buff : Nat → UInt8) (count : Int) :
    Serves geo s (lflwrite d buff count) (f.write d buff count).2 (f.write d buff count).1 := by
  by_cases hneg : count < 0
  · have hspec : f.write d buff count = (f, SYSERR) := by
      unfold FileSys.write
      rw [if_pos hneg]
    rw [hspec]
    apply h.refused
    unfold Lfs.lflwrite
    rw [if_pos hneg]
    rfl
  have hloop : Lfs.lflwrite d buff count = loop (writeRound d buff count) (count.toNat + 1) 0 := by
    unfold Lfs.lflwrite
    rw [if_neg hneg]
    rfl
  rw [hloop]
  by_cases hzero : count = 0
  · have hspec : f.write d buff count = (f, 0) := by
      unfold FileSys.write
      rw [if_neg hneg, if_pos hzero]
    rw [hspec, hzero]
    exact h.refused rfl
  cases hd : f.opens d with
  | none =>
      have hwrite : f.write d buff count = (f, SYSERR) := by
        unfold FileSys.write
        rw [if_neg hneg, if_neg hzero, hd]
      have hspec : f.putc d (buff 0) = (f, SYSERR) := by
        unfold FileSys.putc
        rw [hd]
      have hput := h.lflputc d (buff 0)
      rw [hspec] at hput
      rw [hwrite]
      rcases hput with ⟨s₁, C₁, hrun, hsound, hsame⟩ | ⟨hnone, hno⟩
      · left
        refine ⟨s₁, C₁, ?_, hsound, hsame⟩
        rw [run_loop, run_writeRound (by omega), hrun]
        rfl
      · exact absurd h.fits hno
  | some o =>
      rcases o with ⟨i, pos⟩
      have hwrite : f.write d buff count = ((f.setContent i (putBytes (f.content i) pos
          ((List.range' 0 count.toNat).map buff))).setOpen d (some (i, pos + count.toNat)),
          count) := by
        unfold FileSys.write
        simp only [if_neg hneg, if_neg hzero, hd, List.length_map, List.length_range]
        rw [List.range_eq_range']
      rw [hwrite]
      exact h.run_write hd (j := 0) (by omega)

end Stores

end Lfs
end BbbXinu
