import BbbXinu.Invariant.LfsFormat

/-!
# Files are byte arrays

Calls run one after the other on a formatted disk return what the specification
returns, in which a file is an array of bytes and an open file a position in it.
A call that finds no block left stops the system; while the files fit on the disk
none does.
-/

namespace BbbXinu
namespace Lfs

open Layouts Prog

variable {geo : Geometry} {s : Lfs} {C : Catalog} {f : FileSys}

/-!
## Calls before the directory is read
-/

/-- No file is open and nobody holds a mutex of a file. -/
def AllClosed (s : Lfs) : Prop := ∀ d, (s.lfltab d).lfmutex = 1 ∧ (s.lfltab d).lfstate = .free

section Closed

variable {d : Fin Nlfl}

theorem run_plain {p : Prog Lfs Int} {s' : Lfs} {r : Int} (h : run p s = some (s', r)) :
    run (plain p) s = some (s', (r, [])) := by
  unfold plain
  rw [run_bind, h]
  rfl

theorem run_plain_none {p : Prog Lfs Int} (h : run p s = none) : run (plain p) s = none := by
  unfold plain
  rw [run_bind, h]
  rfl

theorem AllClosed.getc (h : AllClosed s) : run (lflgetc d) s = some (s, SYSERR) :=
  run_closed (h d).1 (h d).2

theorem AllClosed.putc {ch : UInt8} (h : AllClosed s) : run (lflputc d ch) s = some (s, SYSERR) :=
  run_closed (h d).1 (h d).2

theorem AllClosed.read {count : Int} (h : AllClosed s) (hf : f.opens d = none) :
    run (lflread d count) s = some (s, (f.read d count).2) ∧ (f.read d count).1 = f := by
  unfold Lfs.lflread FileSys.read
  by_cases hneg : count < 0
  · rw [if_pos hneg, if_pos hneg]
    exact ⟨rfl, rfl⟩
  rw [if_neg hneg, if_neg hneg]
  by_cases hzero : count = 0
  · rw [if_pos hzero, hzero]
    exact ⟨rfl, rfl⟩
  rw [if_neg hzero, hf]
  refine ⟨?_, rfl⟩
  change run (loop (readRound d count) (count.toNat + 1) []) s = _
  rw [run_loop]
  unfold readRound
  rw [if_neg (by simp; omega), run_bind, h.getc]
  rfl

theorem AllClosed.write {buff : Nat → UInt8} {count : Int} (h : AllClosed s)
    (hf : f.opens d = none) :
    run (lflwrite d buff count) s = some (s, (f.write d buff count).2) ∧
      (f.write d buff count).1 = f := by
  unfold Lfs.lflwrite FileSys.write
  by_cases hneg : count < 0
  · rw [if_pos hneg, if_pos hneg]
    exact ⟨rfl, rfl⟩
  rw [if_neg hneg, if_neg hneg]
  by_cases hzero : count = 0
  · rw [if_pos hzero, hzero]
    exact ⟨rfl, rfl⟩
  rw [if_neg hzero, hf]
  refine ⟨?_, rfl⟩
  change run (loop (writeRound d buff count) (count.toNat + 1) 0) s = _
  rw [run_loop, run_writeRound (by omega), h.putc]
  rfl

/-- On a system without open files, only {lit}`lfsopen` does anything. -/
theorem AllClosed.call (h : AllClosed s) (hf : ∀ d, f.opens d = none) (dev : Fin Nlfl → Int)
    {c : LfsCall} (hc : ∀ name mode, c ≠ .lfsopen name mode) :
    run (code c) s = some (s, (f.call dev c).2) ∧ (f.call dev c).1 = f := by
  cases c with
  | lfsopen name mode => exact absurd rfl (hc name mode)
  | lflclose d =>
      have hspec : f.close d = (f, SYSERR) := by
        unfold FileSys.close
        rw [hf d]
      unfold FileSys.call
      simp only [hspec]
      exact ⟨run_plain (run_closed (h d).1 (h d).2), trivial⟩
  | lflgetc d =>
      have hspec : f.getc d = (f, SYSERR) := by
        unfold FileSys.getc
        rw [hf d]
      unfold FileSys.call
      simp only [hspec]
      exact ⟨run_plain h.getc, trivial⟩
  | lflputc d ch =>
      have hspec : f.putc d ch = (f, SYSERR) := by
        unfold FileSys.putc
        rw [hf d]
      unfold FileSys.call
      simp only [hspec]
      exact ⟨run_plain h.putc, trivial⟩
  | lflread d count => exact h.read (hf d)
  | lflwrite d buff count => exact ⟨run_plain (h.write (hf d)).1, (h.write (hf d)).2⟩
  | lflseek d offset =>
      have hspec : f.seek d offset.toNat = (f, SYSERR) := by
        unfold FileSys.seek
        rw [hf d]
      unfold FileSys.call
      simp only [hspec]
      exact ⟨run_plain (run_closed (h d).1 (h d).2), trivial⟩
  | lflcontrol d func =>
      have hspec : f.control d func = (f, SYSERR) := by
        unfold FileSys.control
        rw [hf d]
      unfold FileSys.call
      simp only [hspec]
      exact ⟨run_plain (run_closed (h d).1 (h d).2), trivial⟩

end Closed

/-!
## Every call
-/

/-- The file system between two calls.  Before the directory is read no file is open. -/
structure Stands (geo : Geometry) (dev : Fin Nlfl → Int) (s : Lfs) (f : FileSys) : Prop where
  sound : ∃ C, Sound geo (loaded s) C f
  closed : s.lfDirpresent = false → ∀ d, f.opens d = none
  dev : ∀ d, (s.lfltab d).lfdev = dev d

section Calls

variable {dev : Fin Nlfl → Int}

theorem Stands.allClosed (h : Stands geo dev s f) (hp : s.lfDirpresent = false) : AllClosed s := by
  rcases h.sound with ⟨C, hs⟩
  intro d
  have hm := hs.fmutex d
  have hfree := hs.free d (h.closed hp d)
  rw [loaded_lfltab] at hm hfree
  exact ⟨hm, hfree⟩

/-- A call that serves the specification, with the directory in memory. -/
theorem Serves.stands {α : Type} {p : Prog Lfs α} {r : α} {f' : FileSys}
    (h : Serves geo s p r f') (hp : s.lfDirpresent = true) (hdev : ∀ d, (s.lfltab d).lfdev = dev d) :
    (∃ s', run p s = some (s', r) ∧ Stands geo dev s' f') ∨ (run p s = none ∧ ¬Fits geo f') := by
  rcases h with ⟨s', C', hrun, hs, hsame⟩ | hstop
  · left
    have hp' : s'.lfDirpresent = true := hsame.present.trans hp
    refine ⟨s', hrun, ⟨C', ?_⟩, ?_, ?_⟩
    · rw [loaded_of_present hp']
      exact hs
    · intro habsent
      rw [hp'] at habsent
      cases habsent
    · intro d
      rw [hsame.dev d, hdev d]
  · exact Or.inr hstop

theorem Serves.plain {p : Prog Lfs Int} {r : Int} {f' : FileSys} (h : Serves geo s p r f') :
    Serves geo s (Lfs.plain p) (r, []) f' := by
  rcases h with ⟨s', C', hrun, hrest⟩ | ⟨hnone, hno⟩
  · exact Or.inl ⟨s', C', run_plain hrun, hrest⟩
  · exact Or.inr ⟨run_plain_none hnone, hno⟩

/-- A call on a device serves the specification. -/
theorem Sound.call (h : Sound geo s C f) {c : LfsCall} (hc : ∀ name mode, c ≠ .lfsopen name mode) :
    Serves geo s (code c) (f.call dev c).2 (f.call dev c).1 := by
  cases c with
  | lfsopen name mode => exact absurd rfl (hc name mode)
  | lflclose d => exact (h.lflclose d).plain
  | lflgetc d => exact (h.lflgetc d).plain
  | lflputc d ch => exact (h.lflputc d ch).plain
  | lflread d count => exact h.lflread h.fits d count
  | lflwrite d buff count => exact (h.lflwrite d buff count).plain
  | lflseek d offset => exact (h.lflseek d offset).plain
  | lflcontrol d func => exact (h.lflcontrol d func).plain

/-- One call returns what the specification returns, or stops the system because the files
would not fit. -/
theorem Stands.call (h : Stands geo dev s f) (c : LfsCall) :
    (∃ s', run (code c) s = some (s', (f.call dev c).2) ∧ Stands geo dev s' (f.call dev c).1) ∨
      (run (code c) s = none ∧ ¬Fits geo (f.call dev c).1) := by
  rcases h.sound with ⟨C, hs⟩
  by_cases hc : ∃ name mode, c = .lfsopen name mode
  · rcases hc with ⟨name, mode, rfl⟩
    left
    have hdev : (fun d => (s.lfltab d).lfdev) = dev := funext h.dev
    have hopen := hs.lfsopen name mode
    rw [hdev] at hopen
    rcases hopen with ⟨s', hrun, hs', habsent, hdev'⟩
    refine ⟨s', run_plain hrun, ⟨C, hs'⟩, ?_, ?_⟩
    · intro hp
      rcases habsent hp with ⟨rfl, heq⟩
      change ∀ d, (f.openFile dev name mode).1.opens d = none
      rw [heq]
      exact h.closed hp
    · intro d
      rw [hdev' d, h.dev d]
  · have hne : ∀ name mode, c ≠ .lfsopen name mode := fun name mode heq => hc ⟨name, mode, heq⟩
    cases hp : s.lfDirpresent with
    | true =>
        rw [loaded_of_present hp] at hs
        exact (hs.call hne).stands hp h.dev
    | false =>
        left
        rcases (h.allClosed hp).call (h.closed hp) dev hne with ⟨hrun, heq⟩
        refine ⟨s, hrun, ?_⟩
        rw [heq]
        exact h

end Calls

/-!
## Every sequence of calls
-/

section Runs

variable {dev : Fin Nlfl → Int} {lfiblks dsiz : UInt32}

theorem Formatted.stands (h : HasRoom lfiblks dsiz) (hs : Formatted lfiblks dsiz s) :
    Stands (geometry h) (fun d => (s.lfltab d).lfdev) s FileSys.empty where
  sound := ⟨_, (hs.sound h).2⟩
  closed _ _ := rfl
  dev _ := rfl

/-- Calls that return leave a file system that stands for the files of the
specification. -/
theorem Stands.run (h : Stands geo dev s f) (calls : List LfsCall) {t : Lfs × List Reply}
    (ht : Lfs.replies calls s = some t) :
    t.2 = f.replies dev calls ∧ Stands geo dev t.1 (f.after dev calls) := by
  induction calls generalizing s f t with
  | nil =>
      cases ht
      exact ⟨rfl, h⟩
  | cons c calls ih =>
      change (run (code c) s).bind _ = some t at ht
      rcases h.call c with ⟨s', hrun, hstands⟩ | ⟨hnone, _⟩
      · rw [hrun, Option.bind_some] at ht
        rcases Option.map_eq_some_iff.mp ht with ⟨u, hu, rfl⟩
        rcases ih hstands hu with ⟨hreplies, hend⟩
        refine ⟨?_, hend⟩
        change _ :: u.2 = _
        rw [hreplies]
        rfl
      · rw [hnone] at ht
        cases ht

/-- While the files fit on the disk, every call returns. -/
theorem Stands.returns (h : Stands geo dev s f) (calls : List LfsCall)
    (hfits : ∀ l, l <+: calls → Fits geo (f.after dev l)) :
    ∃ t, Lfs.replies calls s = some t := by
  induction calls generalizing s f with
  | nil => exact ⟨_, rfl⟩
  | cons c calls ih =>
      rcases h.call c with ⟨s', hrun, hstands⟩ | ⟨_, hno⟩
      · rcases ih hstands fun l hl => hfits (c :: l) (List.cons_prefix_cons.mpr ⟨rfl, hl⟩) with
          ⟨u, hu⟩
        refine ⟨(u.1, (f.call dev c).2 :: u.2), ?_⟩
        change (Prog.run (code c) s).bind _ = _
        rw [hrun, Option.bind_some, hu]
        rfl
      · exact absurd (hfits [c] (List.cons_prefix_cons.mpr ⟨rfl, List.nil_prefix⟩)) hno

/-- On a formatted disk, calls one after the other return what they return on byte arrays
and positions, and as long as there are enough free blocks for the files they all return. -/
theorem files_are_byte_arrays (h : HasRoom lfiblks dsiz) (hs : Formatted lfiblks dsiz s)
    (calls : List LfsCall) :
    (∀ t, Lfs.replies calls s = some t →
      t.2 = FileSys.empty.replies (fun d => (s.lfltab d).lfdev) calls) ∧
    ((∀ l, l <+: calls →
        Fits (geometry h) (FileSys.empty.after (fun d => (s.lfltab d).lfdev) l)) →
      ∃ t, Lfs.replies calls s = some t) :=
  ⟨fun _ ht => ((hs.stands h).run calls ht).1, fun hfits => (hs.stands h).returns calls hfits⟩

/-- Two bytes are written, and one of them is read after the file has been closed and
opened again. -/
theorem files_are_byte_arrays_reopened :
    ∃ t, Lfs.replies [.lfsopen [97] [110], .lflputc 0 65, .lflputc 0 66, .lflclose 0,
        .lfsopen [97] [], .lflseek 0 1, .lflgetc 0] smallSystem = some t ∧
      t.2.getLast? = some (66, []) := by
  have hsome : (Lfs.replies [.lfsopen [97] [110], .lflputc 0 65, .lflputc 0 66, .lflclose 0,
      .lfsopen [97] [], .lflseek 0 1, .lflgetc 0] smallSystem).isSome := by decide +kernel
  obtain ⟨t, ht⟩ := Option.isSome_iff_exists.mp hsome
  refine ⟨t, ht, ?_⟩
  rw [(files_are_byte_arrays smallSystem_hasRoom smallSystem_formatted _).1 t ht]
  decide +kernel

end Runs

end Lfs
end BbbXinu

/-!
## Every block has one owner

Between two calls each index block and each data block is on its free list or
belongs to one file, and stands there once.  The free lists and the lists of index
blocks of the files end in the null pointer.  The index block that an open file
has changed in memory counts there.
-/

namespace BbbXinu
namespace Lfs

open Layouts Prog

/-- An index block of a file, as the device has it in memory when it is dirty there, and
otherwise as it stands on the disk. -/
def iblkNow (s : Lfs) (e : Fin LF_NUM_DIR_ENT) (a : UInt32) : Lfiblk :=
  match (List.finRange Nlfl).find? fun d =>
      (s.lfltab d).lfstate = .used ∧ (s.lfltab d).lfdirptr = e ∧ (s.lfltab d).lfinum = a ∧
        (s.lfltab d).lfibdirty with
  | some d => (s.lfltab d).lfiblock
  | none => iblkAt s.disk a

/-- The data blocks that an index block refers to. -/
def blockIds (ib : Lfiblk) : List UInt32 :=
  ((List.finRange LF_IBLEN).map ib.ibDba).filter fun b => b ≠ LF_DNULL

/-- The catalog says what the two free lists and the files have, and no block is lost or
stands twice. -/
structure Owned (geo : Geometry) (s : Lfs) (C : Catalog) : Prop where
  ifree : Chain (fun a => (iblkAt s.disk a).ibNext) LF_INULL s.lfDir.lfdIfree C.il
  dfree : Chain (dlink s.disk) LF_DNULL s.lfDir.lfdDfree C.dl
  ibs : ∀ e : Fin LF_NUM_DIR_ENT, e.val < s.lfDir.lfdNfiles.toNat →
    Chain (fun a => (iblkNow s e a).ibNext) LF_INULL (s.lfDir.lfdFiles e).ldIlist (C.ibs e)
  dbs : ∀ e : Fin LF_NUM_DIR_ENT, e.val < s.lfDir.lfdNfiles.toNat →
    C.dbs e = (C.ibs e).flatMap fun a => blockIds (iblkNow s e a)
  unused : ∀ e : Fin LF_NUM_DIR_ENT, s.lfDir.lfdNfiles.toNat ≤ e.val → C.ibs e = [] ∧ C.dbs e = []
  index : (C.il ++ (List.finRange LF_NUM_DIR_ENT).flatMap C.ibs).Perm (indexIds geo)
  data : (C.dl ++ (List.finRange LF_NUM_DIR_ENT).flatMap C.dbs).Perm (dataIds geo)

/-!
## The blocks of a file
-/

section Blocks

variable {geo : Geometry} {s : Lfs} {C : Catalog} {f : FileSys} {e : Fin LF_NUM_DIR_ENT}

theorem filter_getD {null : UInt32} {l : List UInt32} (hl : null ∉ l) (n : Nat) :
    (((List.range n).map fun i => (l[i]?).getD null).filter fun b => b ≠ null) = l.take n := by
  induction n with
  | zero => rfl
  | succ n ih =>
      rw [List.range_succ, List.map_append, List.filter_append, ih, List.take_add_one]
      congr 1
      cases hn : l[n]? with
      | none => simp [hn]
      | some b =>
          have hb : b ≠ null := fun heq => hl (heq ▸ List.mem_of_getElem? hn)
          simp [hn, hb]

/-- An index block refers to 16 data blocks of its file, the last one to the rest. -/
theorem blockIds_indexBlock {ibs dbs : List UInt32} (hnull : LF_DNULL ∉ dbs) (k : Nat) :
    blockIds (indexBlock ibs dbs k) = (dbs.drop (16 * k)).take 16 := by
  have hmap : (List.finRange LF_IBLEN).map (indexBlock ibs dbs k).ibDba
      = (List.range 16).map fun i => ((dbs.drop (16 * k))[i]?).getD LF_DNULL := by
    rw [show List.range 16 = List.range LF_IBLEN from rfl, ← List.map_coe_finRange_eq_range,
      List.map_map]
    apply List.map_congr_left
    intro i _
    change (dbs[16 * k + i.val]?).getD LF_DNULL = ((dbs.drop (16 * k))[i.val]?).getD LF_DNULL
    rw [List.getElem?_drop]
  unfold blockIds
  rw [hmap, filter_getD fun hm => hnull (List.mem_of_mem_drop hm)]

theorem flatMap_blockIds {ibs dbs : List UInt32} (hnull : LF_DNULL ∉ dbs) (n : Nat) :
    ((List.range n).flatMap fun k => blockIds (indexBlock ibs dbs k)) = dbs.take (16 * n) := by
  induction n with
  | zero => rfl
  | succ n ih =>
      rw [List.range_succ, List.flatMap_append, ih, List.flatMap_singleton,
        blockIds_indexBlock hnull, Nat.mul_succ, List.take_add]

theorem flatMap_getElem {ibs : List UInt32} {g : UInt32 → List UInt32} {G : Nat → List UInt32}
    (h : ∀ k a, ibs[k]? = some a → g a = G k) :
    ibs.flatMap g = (List.range ibs.length).flatMap G := by
  induction ibs generalizing G with
  | nil => rfl
  | cons a ibs ih =>
      rw [List.flatMap_cons, List.length_cons, List.range_succ_eq_map, List.flatMap_cons,
        h 0 a rfl, ih (G := fun k => G (k + 1)) fun k b hk => h (k + 1) b hk, List.flatMap_map]

/-- A device that has an entry open is the one on which the specification has it. -/
theorem Sound.open_of_used (h : Sound geo s C f) {d : Fin Nlfl} (hused : (s.lfltab d).lfstate = .used)
    (he : (s.lfltab d).lfdirptr = e) : ∃ p, f.opens d = some (e.val, p) := by
  cases hd : f.opens d with
  | none =>
      have hfree := h.free d hd
      rw [hused] at hfree
      cases hfree
  | some o =>
      rcases o with ⟨i, p⟩
      have hentry := (h.live d i p hd).entry
      rw [he] at hentry
      exact ⟨p, by rw [hentry]⟩

theorem Sound.iblkNow (h : Sound geo s C f) (he : e.val < f.files.length) {k : Nat} {a : UInt32}
    (hk : (C.ibs e)[k]? = some a) : iblkNow s e a = indexBlock (C.ibs e) (C.dbs e) k := by
  unfold Lfs.iblkNow
  split
  case h_1 d hfound =>
    have hfind := List.find?_some hfound
    have hdirty := of_decide_eq_true hfind
    rcases h.open_of_used hdirty.1 hdirty.2.1 with ⟨p, hp⟩
    have hfile := (h.live d e.val p hp).file
    rw [hdirty.2.1] at hfile
    exact hfile.indexMem k (by rw [hdirty.2.2.1]; exact hk)
  case h_2 hnone =>
    rw [List.find?_eq_none] at hnone
    by_cases hopen : ∃ d p, f.opens d = some (e.val, p)
    · rcases hopen with ⟨d, p, hp⟩
      have hlive := h.live d e.val p hp
      have hptr : (s.lfltab d).lfdirptr = e := Fin.ext hlive.entry
      have hfile := hlive.file
      rw [hptr] at hfile
      apply hfile.indexDisk k a hk
      intro ha
      rw [Bool.eq_false_iff]
      intro hdirty
      exact hnone d (List.mem_finRange d) (decide_eq_true ⟨hlive.used, hptr, ha, hdirty⟩)
    · exact (h.idle e he fun d p hp => hopen ⟨d, p, hp⟩).indexDisk k a hk fun _ => rfl

theorem Sound.ilist (h : Sound geo s C f) (he : e.val < f.files.length) :
    (s.lfDir.lfdFiles e).ldIlist = (C.ibs e).headD LF_INULL := by
  by_cases hopen : ∃ d p, f.opens d = some (e.val, p)
  · rcases hopen with ⟨d, p, hp⟩
    have hlive := h.live d e.val p hp
    have hfile := hlive.file
    unfold Lfs.entryOf at hfile
    rw [show (s.lfltab d).lfdirptr = e from Fin.ext hlive.entry] at hfile
    exact hfile.ilist
  · exact (h.idle e he fun d p hp => hopen ⟨d, p, hp⟩).ilist

/-- The blocks of a sound file system are owned as the catalog says. -/
theorem Sound.owned (h : Sound geo s C f) : Owned geo s C where
  ifree := h.pool.index
  dfree := h.pool.data
  ibs e he := by
    rw [h.count] at he
    apply Chain.of_getElem (h.ilist he)
    intro k hk
    rw [h.iblkNow he (List.getElem?_eq_getElem hk)]
    rfl
  dbs e he := by
    rw [h.count] at he
    have hnull : LF_DNULL ∉ C.dbs e := (h.shares e).null_notMem_dbs
    have h1 := (h.sized e).data
    have h2 := (h.sized e).index
    rw [flatMap_getElem fun k a hk => congrArg blockIds (h.iblkNow he hk), flatMap_blockIds hnull,
      List.take_of_length_le (by omega)]
  unused e he := by
    rw [h.count] at he
    have hsz := h.sized e
    rw [content_of_le he] at hsz
    exact ⟨List.length_eq_zero_iff.mp hsz.index, List.length_eq_zero_iff.mp hsz.data⟩
  index := h.index
  data := h.data

end Blocks

/-!
## Every sequence of calls
-/

/-- After any calls on a formatted disk that have returned, each block is on a free list or
belongs to a file, once. -/
theorem blocks_have_one_owner {lfiblks dsiz : UInt32} {s : Lfs} (h : HasRoom lfiblks dsiz)
    (hs : Formatted lfiblks dsiz s) (calls : List LfsCall) {t : Lfs × List Reply}
    (ht : replies calls s = some t) : ∃ C, Owned (geometry h) (loaded t.1) C := by
  rcases (((hs.stands h).run calls ht).2).sound with ⟨C, hsound⟩
  exact ⟨C, hsound.owned⟩

/-- A file has been written, closed, and emptied after it has been opened again. -/
theorem blocks_have_one_owner_emptied : ∃ t C,
    replies [.lfsopen [97] [110], .lflputc 0 65, .lflclose 0, .lfsopen [97] [],
      .lflcontrol 0 LF_CTL_TRUNC] smallSystem = some t ∧
    Owned (geometry smallSystem_hasRoom) (loaded t.1) C := by
  have hsome : (replies [.lfsopen [97] [110], .lflputc 0 65, .lflclose 0, .lfsopen [97] [],
      .lflcontrol 0 LF_CTL_TRUNC] smallSystem).isSome := by
    decide +kernel
  rcases Option.isSome_iff_exists.mp hsome with ⟨t, ht⟩
  rcases blocks_have_one_owner smallSystem_hasRoom smallSystem_formatted _ ht with ⟨C, hC⟩
  exact ⟨t, C, ht, hC⟩

end Lfs
end BbbXinu
