import BbbXinu.Invariant.LfsClosing

/-!
# Opening a file, run without interruption

{lit}`lfsopen` looks for the name among the open files and in the directory, which
it reads from the disk when it is used for the first time.  The searches find what
the specification finds.  A file that is opened has no blocks in memory, and a
file that is created has none at all.
-/

namespace BbbXinu
namespace Lfs

open Layouts Prog

/-!
## Names
-/

theorem cname_nil : cname [] = [] := rfl

theorem cname_zero {l : List UInt8} : cname (0 :: l) = [] := by
  unfold cname
  rw [List.takeWhile_cons]
  simp

theorem cname_cons {c : UInt8} {l : List UInt8} (h : c ≠ 0) : cname (c :: l) = c :: cname l := by
  unfold cname
  rw [List.takeWhile_cons]
  simp [h]

theorem cname_eq_nil {l : List UInt8} : cname l = [] ↔ l.headD 0 = 0 := by
  cases l with
  | nil => simp [cname_nil]
  | cons c l =>
      by_cases hc : c = 0
      · simp [hc, cname_zero]
      · simp [hc, cname_cons hc]

/-- The comparison of two strings stops at the null character. -/
theorem sameName_iff (a b : List UInt8) : sameName a b = true ↔ cname a = cname b := by
  induction a generalizing b with
  | nil =>
      rw [cname_nil, eq_comm (a := ([] : List UInt8)), cname_eq_nil]
      exact decide_eq_true_iff
  | cons c a ih =>
      unfold sameName
      by_cases hc : c = 0
      · rw [if_pos hc, hc, cname_zero, eq_comm (a := ([] : List UInt8)), cname_eq_nil]
        exact decide_eq_true_iff
      · rw [if_neg hc, cname_cons hc]
        cases b with
        | nil => simp [cname_nil, hc]
        | cons x b =>
            by_cases hx : c = x
            · rw [← hx, if_neg (by simp), cname_cons hc, List.tail_cons, ih b]
              simp
            · rw [if_pos (by simpa using hx)]
              by_cases hx0 : x = 0
              · simp [hx0, cname_zero]
              · simp [cname_cons hx0, hx]

theorem zero_notMem_cname (l : List UInt8) : ∀ c ∈ cname l, c ≠ 0 := by
  induction l with
  | nil => simp [cname_nil]
  | cons x l ih =>
      by_cases hx : x = 0
      · simp [hx, cname_zero]
      · rw [cname_cons hx]
        simpa [hx] using ih

theorem cname_append_zero {l m : List UInt8} (h : ∀ c ∈ l, c ≠ 0) : cname (l ++ 0 :: m) = l := by
  induction l with
  | nil => exact cname_zero
  | cons c l ih =>
      rw [List.cons_append, cname_cons (h c List.mem_cons_self), ih fun x hx =>
        h x (List.mem_cons_of_mem c hx)]

/-- A name that fits in the array with its null character is read back from it. -/
theorem cname_copyName {name : List UInt8} {dst : Fin LF_NAME_LEN → UInt8}
    (h : (cname name).length < LF_NAME_LEN) :
    cname (List.ofFn (copyName name dst)) = cname name := by
  have hsplit : List.ofFn (copyName name dst) = cname name ++ 0 ::
      (List.ofFn (copyName name dst)).drop ((cname name).length + 1) := by
    apply List.ext_getElem?
    intro j
    by_cases hj : j < (cname name).length
    · rw [List.getElem?_append_left hj, List.getElem?_eq_getElem hj,
        List.getElem?_eq_getElem (by rw [List.length_ofFn]; omega), List.getElem_ofFn]
      unfold copyName
      rw [if_pos (show j ≤ _ by omega), List.getD_eq_getElem?_getD, List.getElem?_eq_getElem hj]
      rfl
    · rw [List.getElem?_append_right (by omega)]
      by_cases hjn : j = (cname name).length
      · rw [hjn, Nat.sub_self, List.getElem?_cons_zero,
          List.getElem?_eq_getElem (by rw [List.length_ofFn]; exact h), List.getElem_ofFn]
        unfold copyName
        rw [if_pos (Nat.le_refl _), List.getD_eq_getElem?_getD,
          List.getElem?_eq_none_iff.mpr (Nat.le_refl _)]
        rfl
      · have hstep : j - (cname name).length = j - (cname name).length - 1 + 1 := by omega
        rw [hstep, List.getElem?_cons_succ, List.getElem?_drop]
        congr 1
        omega
  rw [hsplit]
  exact cname_append_zero (zero_notMem_cname name)

/-!
## The searches
-/

section Searches

variable {geo : Geometry} {s : Lfs} {C : Catalog} {f : FileSys} {d : Fin Nlfl} {i pos : Nat}
  {name : List UInt8}

theorem Sound.state_iff (h : Sound geo s C f) (d : Fin Nlfl) :
    (s.lfltab d).lfstate = .free ↔ f.opens d = none := by
  constructor
  · intro hfree
    cases hd : f.opens d with
    | none => rfl
    | some o =>
        have hused := (h.live d o.1 o.2 hd).used
        rw [hfree] at hused
        cases hused
  · exact h.free d

/-- The number of a file, from the place of its name. -/
theorem lookup_eq_of_name (h : Sound geo s C f)
    (hi : (f.files[i]?).map Prod.fst = some (cname name)) : f.lookup (cname name) = some i := by
  rcases Option.map_eq_some_iff.mp hi with ⟨x, hx, hname⟩
  have hlt := (List.getElem?_eq_some_iff.mp hx).1
  unfold FileSys.lookup
  rw [List.findIdx?_eq_some_iff_getElem]
  refine ⟨hlt, by simpa [(List.getElem?_eq_some_iff.mp hx).2] using hname, ?_⟩
  intro j hj
  have hjlt : j < f.files.length := by omega
  simp only [decide_eq_true_eq]
  intro hsame
  have hpair : (f.files.map Prod.fst)[j]? = (f.files.map Prod.fst)[i]? := by
    rw [List.getElem?_map, List.getElem?_map, hi, List.getElem?_eq_getElem hjlt]
    exact congrArg some hsame
  have hji := (List.getElem?_inj (by rwa [List.length_map]) h.distinct).mp hpair
  omega

theorem lookup_some (h : f.lookup name = some i) : (f.files[i]?).map Prod.fst = some name := by
  unfold FileSys.lookup at h
  rw [List.findIdx?_eq_some_iff_getElem] at h
  rcases h with ⟨hlt, hname, _⟩
  rw [List.getElem?_eq_getElem hlt]
  exact congrArg some (by simpa using hname)

theorem isOpen_iff : f.isOpen i = true ↔ ∃ d p, f.opens d = some (i, p) := by
  unfold FileSys.isOpen
  rw [List.any_eq_true]
  constructor
  · rintro ⟨d, _, hd⟩
    rcases Option.map_eq_some_iff.mp (of_decide_eq_true hd) with ⟨⟨j, p⟩, hopen, rfl⟩
    exact ⟨d, p, hopen⟩
  · rintro ⟨d, p, hd⟩
    refine ⟨d, List.mem_finRange d, ?_⟩
    rw [hd]
    simp

/-- A file with the name is open. -/
theorem Sound.unusedDevice_none (h : Sound geo s C f) (hu : unusedDevice s.lfltab name = none) :
    ∃ i, f.lookup (cname name) = some i ∧ f.isOpen i = true := by
  unfold unusedDevice at hu
  split at hu
  case isTrue hany =>
    rw [List.any_eq_true] at hany
    rcases hany with ⟨d, _, hd⟩
    have hboth := of_decide_eq_true hd
    cases hopen : f.opens d with
    | none => exact absurd (h.free d hopen) hboth.1
    | some o =>
        rcases o with ⟨i, p⟩
        have hname := (h.live d i p hopen).name
        rw [← (sameName_iff _ _).mp hboth.2] at hname
        exact ⟨i, lookup_eq_of_name h hname, isOpen_iff.mpr ⟨d, p, hopen⟩⟩
  case isFalse => cases hu

/-- No file with the name is open, and the first free device is found. -/
theorem Sound.unusedDevice_some (h : Sound geo s C f) {o : Option (Fin Nlfl)}
    (hu : unusedDevice s.lfltab name = some o) :
    f.freeDevice = o ∧ ∀ i, f.lookup (cname name) = some i → f.isOpen i = false := by
  unfold unusedDevice at hu
  split at hu
  case isTrue => cases hu
  case isFalse hany =>
    constructor
    · rw [← Option.some.inj hu]
      unfold FileSys.freeDevice
      congr 1
      funext d
      exact decide_eq_decide.mpr (h.state_iff d).symm
    · intro i hi
      rw [Bool.eq_false_iff]
      intro hopen
      rcases isOpen_iff.mp hopen with ⟨d, p, hd⟩
      have hlive := h.live d i p hd
      apply hany
      rw [List.any_eq_true]
      refine ⟨d, List.mem_finRange d, decide_eq_true ⟨?_, ?_⟩⟩
      · rw [hlive.used]
        simp
      · rw [sameName_iff]
        exact Option.some.inj ((lookup_some hi).symm.trans hlive.name)

theorem freeDevice_some (h : f.freeDevice = some d) : f.opens d = none := by
  unfold FileSys.freeDevice at h
  have hfree := List.find?_some h
  exact of_decide_eq_true hfree

theorem Sound.findEntry_none (h : Sound geo s C f) (hf : findEntry s.lfDir name = none) :
    f.lookup (cname name) = none := by
  unfold findEntry at hf
  rw [List.find?_eq_none] at hf
  cases hl : f.lookup (cname name) with
  | none => rfl
  | some i =>
      have hname := lookup_some hl
      rcases Option.map_eq_some_iff.mp hname with ⟨x, hx, _⟩
      have hlt := (List.getElem?_eq_some_iff.mp hx).1
      have hfew := h.few
      have hno := hf ⟨i, by omega⟩ (List.mem_finRange _)
      exfalso
      apply hno
      refine decide_eq_true ⟨?_, ?_⟩
      · rw [h.count]
        exact hlt
      · rw [sameName_iff]
        exact Option.some.inj (hname.symm.trans (h.names ⟨i, by omega⟩ hlt))

theorem Sound.findEntry_some (h : Sound geo s C f) {e : Fin LF_NUM_DIR_ENT}
    (hf : findEntry s.lfDir name = some e) :
    e.val < f.files.length ∧ f.lookup (cname name) = some e.val := by
  unfold findEntry at hf
  have hfound := List.find?_some hf
  have hboth := of_decide_eq_true hfound
  rw [h.count] at hboth
  refine ⟨hboth.1, lookup_eq_of_name h ?_⟩
  rw [(sameName_iff _ _).mp hboth.2]
  exact h.names e hboth.1

end Searches

/-!
## Claiming a device and adding a file
-/

section Opening

variable {geo : Geometry} {s : Lfs} {C : Catalog} {f : FileSys} {d : Fin Nlfl} {i pos : Nat}
  {e : Fin LF_NUM_DIR_ENT} {name : List UInt8}

/-- What {lit}`lfsopen` leaves in a control block. -/
structure Claimed (b : Lflcblk) (e : Fin LF_NUM_DIR_ENT) : Prop where
  used : b.lfstate = .used
  entry : b.lfdirptr = e
  lfpos : b.lfpos = 0
  fresh : Fresh b
  lfbyte : LF_BLKSIZ ≤ b.lfbyte
  mutex : b.lfmutex = 1

theorem Sound.claim (h : Sound geo s C f) (hd : f.opens d = none) (he : e.val < f.files.length)
    (hclosed : ∀ d' p, f.opens d' ≠ some (e.val, p)) {b : Lflcblk} (hb : Claimed b e)
    (hname : (f.files[e.val]?).map Prod.fst = some (cname (List.ofFn b.lfname))) :
    Sound geo (s.setBlk d fun _ => b) C (f.setOpen d (some (e.val, 0))) where
  mutex := h.mutex
  fmutex d' := by
    by_cases hdd : d' = d
    · rw [hdd, lfltab_setBlk]
      exact hb.mutex
    · change (upd s.lfltab d b d').lfmutex = 1
      rw [upd_of_ne hdd]
      exact h.fmutex d'
  count := h.count
  few := h.few
  index := h.index
  data := h.data
  pool := h.pool
  sized := h.sized
  names := h.names
  distinct := h.distinct
  idle e' he' hno := by
    apply h.idle e' he'
    intro d' p hd'
    by_cases hdd : d' = d
    · rw [hdd, hd] at hd'
      cases hd'
    · apply hno d' p
      change upd f.opens d _ d' = _
      rw [upd_of_ne hdd, hd']
  free d' hd' := by
    change upd f.opens d _ d' = none at hd'
    by_cases hdd : d' = d
    · rw [hdd, upd_self] at hd'
      cases hd'
    · change (upd s.lfltab d b d').lfstate = .free
      rw [upd_of_ne hdd] at hd' ⊢
      exact h.free d' hd'
  live d' j p hd' := by
    change upd f.opens d _ d' = _ at hd'
    by_cases hdd : d' = d
    · rw [hdd, upd_self] at hd'
      cases hd'
      rw [hdd]
      have hblk : (s.setBlk d fun _ => b).lfltab d = b := lfltab_setBlk
      exact { lt := he
              used := by rw [hblk]; exact hb.used
              entry := by rw [hblk, hb.entry]
              lfpos := by rw [hblk, hb.lfpos]; rfl
              le := Nat.zero_le _
              file := by
                unfold Lfs.entryOf
                rw [hblk, hb.entry]
                exact (h.idle e he hclosed).unload rfl rfl (h.shares e).null_notMem_ibs
                  (h.shares e).null_notMem_dbs hb.fresh
              lfbyte := by
                rw [hblk]
                intro hlt
                exact absurd hlt (Nat.not_lt.mpr hb.lfbyte)
              name := by rw [hblk]; exact hname }
    · rw [upd_of_ne hdd] at hd'
      have hl := h.live d' j p hd'
      have hblk : (s.setBlk d fun _ => b).lfltab d' = s.lfltab d' := upd_of_ne hdd
      exact { lt := hl.lt
              used := by rw [hblk]; exact hl.used
              entry := by rw [hblk]; exact hl.entry
              lfpos := by rw [hblk]; exact hl.lfpos
              le := hl.le
              file := by
                unfold Lfs.entryOf
                rw [hblk]
                exact hl.file
              lfbyte := by rw [hblk]; exact hl.lfbyte
              name := by rw [hblk]; exact hl.name }
  apart d₁ d₂ j p₁ p₂ h₁ h₂ := by
    change upd f.opens d _ d₁ = _ at h₁
    change upd f.opens d _ d₂ = _ at h₂
    by_cases hd₁ : d₁ = d
    · by_cases hd₂ : d₂ = d
      · exact hd₁.trans hd₂.symm
      · rw [hd₁, upd_self] at h₁
        rw [upd_of_ne hd₂] at h₂
        cases h₁
        exact absurd h₂ (hclosed d₂ p₂)
    · rw [upd_of_ne hd₁] at h₁
      by_cases hd₂ : d₂ = d
      · rw [hd₂, upd_self] at h₂
        cases h₂
        exact absurd h₁ (hclosed d₁ p₁)
      · rw [upd_of_ne hd₂] at h₂
        exact h.apart d₁ d₂ j p₁ p₂ h₁ h₂

/-- An empty file at the end of the list. -/
def addFile (f : FileSys) (name : List UInt8) : FileSys := { f with files := f.files ++ [(name, [])] }

theorem content_addFile {j : Nat} : (addFile f name).content j = f.content j := by
  unfold FileSys.content addFile
  by_cases hj : j < f.files.length
  · rw [List.getElem?_append_left hj]
  · have hnone : f.files[j]? = none := List.getElem?_eq_none_iff.mpr (by omega)
    rw [hnone]
    by_cases heq : j = f.files.length
    · simp [heq]
    · have hbeyond : (f.files ++ [(name, ([] : List UInt8))])[j]? = none := by
        rw [List.getElem?_eq_none_iff, List.length_append, List.length_singleton]
        omega
      rw [hbeyond]

theorem content_of_le (h : f.files.length ≤ i) : f.content i = [] := by
  unfold FileSys.content
  rw [List.getElem?_eq_none_iff.mpr h]
  rfl

/-- A file is added under a name that no file has. -/
theorem Sound.create (h : Sound geo s C f) (he : e.val = f.files.length)
    (hlen : (cname name).length < LF_NAME_LEN) (hno : f.lookup (cname name) = none) :
    Sound geo ((s.setDir fun dir => { dir with lfdNfiles := dir.lfdNfiles + 1 }).setEntry e
      (newEntry name)) C (addFile f (cname name)) := by
  have hempty : f.content e.val = [] := content_of_le he.ge
  have hcount : (addFile f (cname name)).files.length = f.files.length + 1 := by
    unfold addFile
    rw [List.length_append, List.length_singleton]
  have hother : ∀ e', e' ≠ e → ((s.setDir fun dir =>
      { dir with lfdNfiles := dir.lfdNfiles + 1 }).setEntry e (newEntry name)).lfDir.lfdFiles e'
        = s.lfDir.lfdFiles e' := fun e' hne => upd_of_ne hne
  have hself : ((s.setDir fun dir =>
      { dir with lfdNfiles := dir.lfdNfiles + 1 }).setEntry e (newEntry name)).lfDir.lfdFiles e
        = newEntry name (s.lfDir.lfdFiles e) := upd_self
  have hold : ∀ e' : Fin LF_NUM_DIR_ENT, e' ≠ e →
      e'.val < (addFile f (cname name)).files.length → e'.val < f.files.length := by
    intro e' hne hlt
    have hval : e'.val ≠ e.val := fun heq => hne (Fin.ext heq)
    omega
  exact {
    mutex := h.mutex
    fmutex := h.fmutex
    count := by
      change (s.lfDir.lfdNfiles + 1).toNat = _
      have hlt := e.isLt
      unfold LF_NUM_DIR_ENT at hlt
      rw [UInt32.toNat_add, h.count, hcount]
      change (f.files.length + 1) % 4294967296 = _
      omega
    few := by
      have hlt := e.isLt
      omega
    index := h.index
    data := h.data
    pool := h.pool
    sized := by
      intro e'
      rw [content_addFile]
      exact h.sized e'
    names := by
      intro e' hlt
      by_cases hee : e' = e
      · rw [hee, hself, he]
        unfold addFile newEntry
        rw [cname_copyName hlen]
        simp
      · rw [hother e' hee]
        unfold addFile
        rw [List.getElem?_append_left (hold e' hee hlt)]
        exact h.names e' (hold e' hee hlt)
    distinct := by
      unfold addFile
      rw [List.map_append, List.nodup_append]
      refine ⟨h.distinct, by simp, ?_⟩
      intro a ha b hb heq
      simp only [List.map_cons, List.map_nil, List.mem_singleton] at hb
      rcases List.mem_map.mp ha with ⟨x, hx, hxa⟩
      unfold FileSys.lookup at hno
      have hne := List.findIdx?_eq_none_iff.mp hno x hx
      rw [hxa, heq, hb] at hne
      simp at hne
    idle := by
      intro e' hlt hclosed
      rw [content_addFile]
      by_cases hee : e' = e
      · have hsz := h.sized e
        rw [hempty] at hsz
        have hibs : C.ibs e = [] := List.length_eq_zero_iff.mp hsz.index
        have hdbs : C.dbs e = [] := List.length_eq_zero_iff.mp hsz.data
        rw [hee, hself, hempty, hibs, hdbs]
        exact fileOk_nil rfl rfl rfl rfl rfl rfl
      · rw [hother e' hee]
        exact h.idle e' (hold e' hee hlt) hclosed
    free := h.free
    live := by
      intro d' j p hd'
      have hl := h.live d' j p hd'
      have hptr : (s.lfltab d').lfdirptr ≠ e := by
        intro heq
        have hentry := hl.entry
        have hlt := hl.lt
        rw [heq] at hentry
        omega
      exact { lt := by
                have hlt := hl.lt
                omega
              used := hl.used
              entry := hl.entry
              lfpos := hl.lfpos
              le := by
                rw [content_addFile]
                exact hl.le
              file := by
                unfold Lfs.entryOf
                change FileOk s.disk (Lfdir.lfdFiles _ (s.lfltab d').lfdirptr) _ _ _ _
                rw [hother _ hptr, content_addFile]
                exact hl.file
              lfbyte := hl.lfbyte
              name := by
                unfold addFile
                rw [List.getElem?_append_left hl.lt]
                exact hl.name }
    apart := h.apart }

end Opening

/-!
## The call
-/

/-- The file system once the directory has been read. -/
def loaded (s : Lfs) : Lfs :=
  if s.lfDirpresent then s
  else { s with lfDir := Lfdir.layout.symm (s.disk LF_AREA_DIR), lfDirpresent := true }

section Call

variable {geo : Geometry} {s t : Lfs} {C : Catalog} {f : FileSys} {d : Fin Nlfl}
  {e : Fin LF_NUM_DIR_ENT} {name mode : List UInt8} {mbits : UInt32}

theorem loaded_present : (loaded s).lfDirpresent = true := by
  unfold loaded
  split
  case isTrue h => exact h
  case isFalse => rfl

theorem loaded_of_present (h : s.lfDirpresent = true) : loaded s = s := if_pos h

@[simp] theorem loaded_lfltab : (loaded s).lfltab = s.lfltab := by
  unfold loaded
  split
  · rfl
  · rfl

@[simp] theorem loaded_lfMutex : (loaded s).lfMutex = s.lfMutex := by
  unfold loaded
  split
  · rfl
  · rfl

theorem run_lockedOpen (h : s.lfMutex = 1) :
    run (lockedOpen name mbits d) s
      = run (openEntry name mbits d) { loaded s with lfMutex := 0 } := by
  unfold lockedOpen
  rw [run_waitMutex h]
  rcases s with ⟨disk, mutex, dir, present, dirty, tab, stack⟩
  cases present with
  | true => rfl
  | false => rfl

theorem release_mutex (h : t.lfMutex = 1) : ({ t with lfMutex := 0 + 1 } : Lfs) = t := by
  cases t
  change _ = 1 at h
  subst h
  rfl

/-- The control block of a device that has been claimed. -/
def claimedBlk (name : List UInt8) (mbits : UInt32) (e : Fin LF_NUM_DIR_ENT) (b : Lflcblk) :
    Lflcblk :=
  { b with
    lfstate := .used, lfdirptr := e, lfmode := mbits &&& LF_MODE_RW, lfpos := 0,
    lfname := copyName name b.lfname, lfinum := LF_INULL, lfdnum := LF_DNULL,
    lfbyte := LF_BLKSIZ, lfibdirty := false, lfdbdirty := false }

theorem run_claimDevice (h : t.lfMutex = 1) :
    run (claimDevice name mbits d e) { t with lfMutex := 0 }
      = some (t.setBlk d fun _ => claimedBlk name mbits e (t.lfltab d), (t.lfltab d).lfdev) := by
  have hrun : run (claimDevice name mbits d e) { t with lfMutex := 0 }
      = some ({ t.setBlk d fun _ => claimedBlk name mbits e (t.lfltab d) with lfMutex := 0 + 1 },
        (upd t.lfltab d (claimedBlk name mbits e (t.lfltab d)) d).lfdev) := rfl
  have hrel := release_mutex (t := t.setBlk d fun _ => claimedBlk name mbits e (t.lfltab d)) h
  rw [hrun, upd_self]
  exact congrArg (fun u => some (u, (t.lfltab d).lfdev)) hrel

theorem claimed_claimedBlk (name : List UInt8) (mbits : UInt32) {b : Lflcblk}
    (h : b.lfmutex = 1) :
    Claimed (claimedBlk name mbits e b) e where
  used := rfl
  entry := rfl
  lfpos := rfl
  fresh := ⟨rfl, rfl, rfl, rfl⟩
  lfbyte := Nat.le_refl _
  mutex := h

/-- {lit}`openEntry` returns what the call of the abstract file system does, and leaves the
files and the open devices that it leaves. -/
def Opens (geo : Geometry) (t : Lfs) (C : Catalog) (f : FileSys) (dev : Fin Nlfl → Int)
    (name mode : List UInt8) (mbits : UInt32) (d : Fin Nlfl) : Prop :=
  ∃ t', run (openEntry name mbits d) { t with lfMutex := 0 }
      = some (t', (f.openFile dev name mode).2) ∧
    Sound geo t' C (f.openFile dev name mode).1 ∧ t'.lfDirpresent = t.lfDirpresent ∧
    ∀ d', (t'.lfltab d').lfdev = (t.lfltab d').lfdev

theorem Sound.opens_refused {dev : Fin Nlfl → Int} (h : Sound geo t C f)
    (hspec : f.openFile dev name mode = (f, SYSERR))
    (hrun : run (openEntry name mbits d) { t with lfMutex := 0 }
      = some ({ t with lfMutex := 0 + 1 }, SYSERR)) : Opens geo t C f dev name mode mbits d := by
  refine ⟨t, ?_, ?_, rfl, fun _ => rfl⟩
  · rw [hrun, hspec, release_mutex h.mutex]
  · rw [hspec]
    exact h

theorem lfdev_claimedBlk (d' : Fin Nlfl) :
    ((t.setBlk d fun _ => claimedBlk name mbits e (t.lfltab d)).lfltab d').lfdev
      = (t.lfltab d').lfdev := by
  by_cases hdd : d' = d
  · rw [hdd, lfltab_setBlk]
    rfl
  · exact congrArg Lflcblk.lfdev (upd_of_ne hdd)

section

variable {dev : Fin Nlfl → Int} (h : Sound geo t C f) (hlen : (cname name).length < LF_NAME_LEN)
  (hmode : lfgetmode mode = some mbits) (hfree : f.freeDevice = some d)
  (hdev : dev d = (t.lfltab d).lfdev)

include h hlen hmode hfree hdev

/-- A name that no file has gets a new entry, unless an old file is asked for or the
directory is full. -/
theorem Sound.opens_new (hfind : findEntry t.lfDir name = none) :
    Opens geo t C f dev name mode mbits d := by
  have hno := h.findEntry_none hfind
  have hspec : f.openFile dev name mode
      = if mbits &&& LF_MODE_O ≠ 0 ∨ LF_NUM_DIR_ENT ≤ f.files.length then (f, SYSERR)
        else ((addFile f (cname name)).setOpen d (some (f.files.length, 0)), dev d) := by
    unfold FileSys.openFile
    rw [if_neg (by omega), hmode, hfree]
    simp only [hno]
    rfl
  by_cases hold : mbits &&& LF_MODE_O ≠ 0
  · rw [if_pos (Or.inl hold)] at hspec
    apply h.opens_refused hspec
    unfold Lfs.openEntry
    rw [run_get]
    simp only [hfind]
    rw [if_pos hold]
    rfl
  · by_cases hroom : t.lfDir.lfdNfiles.toNat < LF_NUM_DIR_ENT
    · have hfew : ¬LF_NUM_DIR_ENT ≤ f.files.length := by
        rw [← h.count]
        omega
      rw [if_neg (not_or.mpr ⟨hold, hfew⟩)] at hspec
      generalize he : (⟨t.lfDir.lfdNfiles.toNat, hroom⟩ : Fin LF_NUM_DIR_ENT) = e
      have hval : e.val = f.files.length := by
        rw [← he, ← h.count]
      have hcreate := h.create hval hlen hno
      generalize hu : (t.setDir fun dir =>
        { dir with lfdNfiles := dir.lfdNfiles + 1 }).setEntry e (newEntry name) = u at hcreate
      have htab : u.lfltab = t.lfltab := by
        rw [← hu]
        rfl
      have hadded : (addFile f (cname name)).files[e.val]? = some (cname name, []) := by
        unfold addFile
        rw [hval]
        simp
      have hclaim := hcreate.claim (d := d) (e := e) (freeDevice_some hfree)
        (List.getElem?_eq_some_iff.mp hadded).1
        (by
          intro d' p hd'
          have hlt := (h.live d' e.val p hd').lt
          omega)
        (claimed_claimedBlk name mbits (hcreate.fmutex d))
        (by
          rw [hadded]
          exact congrArg some (cname_copyName hlen).symm)
      rw [hval] at hclaim
      unfold Opens
      rw [hspec]
      refine ⟨_, ?_, hclaim, ?_, ?_⟩
      · unfold Lfs.openEntry
        rw [run_get]
        simp only [hfind]
        rw [if_neg hold, dif_pos hroom, hdev, ← htab]
        refine Eq.trans ?_ (run_claimDevice (e := e) hcreate.mutex)
        rw [← hu, ← he]
        rfl
      · rw [← hu]
        rfl
      · intro d'
        rw [← hu]
        exact lfdev_claimedBlk (t := t) d'
    · have hfew : LF_NUM_DIR_ENT ≤ f.files.length := by
        rw [← h.count]
        omega
      rw [if_pos (Or.inr hfew)] at hspec
      apply h.opens_refused hspec
      unfold Lfs.openEntry
      rw [run_get]
      simp only [hfind]
      rw [if_neg hold, dif_neg hroom]
      rfl

/-- A file that has the name and is not open is claimed, unless a new file is asked for. -/
theorem Sound.opens_old (hclosed : ∀ i, f.lookup (cname name) = some i → f.isOpen i = false)
    (hfind : findEntry t.lfDir name = some e) : Opens geo t C f dev name mode mbits d := by
  rcases h.findEntry_some hfind with ⟨hlt, hlookup⟩
  have hnot := hclosed e.val hlookup
  have hspec : f.openFile dev name mode
      = if mbits &&& LF_MODE_N ≠ 0 then (f, SYSERR)
        else (f.setOpen d (some (e.val, 0)), dev d) := by
    unfold FileSys.openFile
    rw [if_neg (by omega), hmode, hfree]
    simp [hlookup, hnot]
  by_cases hnew : mbits &&& LF_MODE_N ≠ 0
  · rw [if_pos hnew] at hspec
    apply h.opens_refused hspec
    unfold Lfs.openEntry
    rw [run_get]
    simp only [hfind]
    rw [if_pos hnew]
    rfl
  · rw [if_neg hnew] at hspec
    have hclaim := h.claim (d := d) (freeDevice_some hfree) hlt
      (by
        intro d' p hd'
        rw [isOpen_iff.mpr ⟨d', p, hd'⟩] at hnot
        cases hnot)
      (claimed_claimedBlk name mbits (h.fmutex d))
      (by
        rw [lookup_some hlookup]
        exact congrArg some (cname_copyName hlen).symm)
    unfold Opens
    rw [hspec]
    refine ⟨_, ?_, hclaim, rfl, lfdev_claimedBlk⟩
    unfold Lfs.openEntry
    rw [run_get]
    simp only [hfind]
    rw [if_neg hnew, hdev]
    exact run_claimDevice h.mutex

/-- What {lit}`lfsopen` does with the directory in memory. -/
theorem Sound.openEntry
    (hclosed : ∀ i, f.lookup (cname name) = some i → f.isOpen i = false) :
    Opens geo t C f dev name mode mbits d := by
  cases hfind : findEntry t.lfDir name with
  | none => exact h.opens_new hlen hmode hfree hdev hfind
  | some e => exact h.opens_old hlen hmode hfree hdev hclosed hfind

end

/-- The file system is sound once the directory has been read. -/
theorem Sound.lfsopen (h : Sound geo (loaded s) C f) (name mode : List UInt8) :
    ∃ s', run (lfsopen name mode) s
        = some (s', (f.openFile (fun d => (s.lfltab d).lfdev) name mode).2) ∧
      Sound geo (loaded s') C (f.openFile (fun d => (s.lfltab d).lfdev) name mode).1 ∧
      (s'.lfDirpresent = false → s' = s ∧
        (f.openFile (fun d => (s.lfltab d).lfdev) name mode).1 = f) ∧
      ∀ d, (s'.lfltab d).lfdev = (s.lfltab d).lfdev := by
  have hrefuse : run (Lfs.lfsopen name mode) s = some (s, SYSERR) →
      f.openFile (fun d => (s.lfltab d).lfdev) name mode = (f, SYSERR) → ∃ s',
      run (Lfs.lfsopen name mode) s
        = some (s', (f.openFile (fun d => (s.lfltab d).lfdev) name mode).2) ∧
      Sound geo (loaded s') C (f.openFile (fun d => (s.lfltab d).lfdev) name mode).1 ∧
      (s'.lfDirpresent = false → s' = s ∧
        (f.openFile (fun d => (s.lfltab d).lfdev) name mode).1 = f) ∧
      ∀ d, (s'.lfltab d).lfdev = (s.lfltab d).lfdev := by
    intro hrun hspec
    rw [hspec]
    exact ⟨s, hrun, h, fun _ => ⟨rfl, rfl⟩, fun _ => rfl⟩
  by_cases hlong : LF_NAME_LEN ≤ (cname name).length
  · apply hrefuse
    · unfold Lfs.lfsopen
      rw [if_pos hlong]
      rfl
    · unfold FileSys.openFile
      rw [if_pos hlong]
  cases hmode : lfgetmode mode with
  | none =>
      apply hrefuse
      · unfold Lfs.lfsopen
        rw [if_neg hlong, hmode]
        rfl
      · unfold FileSys.openFile
        rw [if_neg hlong, hmode]
  | some mbits =>
      cases hu : unusedDevice s.lfltab name with
      | none =>
          rw [← loaded_lfltab] at hu
          rcases h.unusedDevice_none hu with ⟨i, hlookup, hopen⟩
          apply hrefuse
          · rw [loaded_lfltab] at hu
            unfold Lfs.lfsopen
            rw [if_neg hlong, hmode]
            simp only [run_get, hu]
            rfl
          · unfold FileSys.openFile
            rw [if_neg hlong, hmode]
            cases f.freeDevice with
            | none => rfl
            | some d =>
                simp only [hlookup]
                rw [if_pos (Or.inl hopen)]
      | some o =>
          rw [← loaded_lfltab] at hu
          have hfree := h.unusedDevice_some hu
          rw [loaded_lfltab] at hu
          cases o with
          | none =>
              apply hrefuse
              · unfold Lfs.lfsopen
                rw [if_neg hlong, hmode]
                simp only [run_get, hu]
                rfl
              · unfold FileSys.openFile
                rw [if_neg hlong, hmode, hfree.1]
          | some d =>
              have hopens : Opens geo (loaded s) C f (fun d => (s.lfltab d).lfdev) name mode
                  mbits d :=
                h.openEntry (by omega) hmode hfree.1 (by rw [loaded_lfltab]) hfree.2
              rcases hopens with ⟨t', ht', hsound, hpresent, hdev⟩
              rw [loaded_present] at hpresent
              refine ⟨t', ?_, ?_, ?_, ?_⟩
              · unfold Lfs.lfsopen
                rw [if_neg hlong, hmode]
                simp only [run_get, hu]
                rw [run_lockedOpen (by rw [← loaded_lfMutex]; exact h.mutex), ht']
              · rw [loaded_of_present hpresent]
                exact hsound
              · intro habsent
                rw [hpresent] at habsent
                cases habsent
              · intro d'
                rw [hdev d', loaded_lfltab]

end Call

end Lfs
end BbbXinu
