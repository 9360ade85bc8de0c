import BbbXinu.Invariant.LfsSetup

/-!
# Truncating

{lit}`lftruncate` goes along the index blocks of a file, puts the data blocks of
each on their free list one by one, and rewrites the index block, the last one
so that it points to the head of the free list of index blocks.  When the loop
ends, the list of the file continues as the free list.
-/

namespace BbbXinu
namespace Lfs

open Layouts Prog

/-- The data blocks of one index block. -/
theorem filterMap_finRange (l : List UInt32) (n : Nat) :
    (List.finRange n).filterMap (fun i => l[i.val]?) = l.take n := by
  have hrange : (List.range n).filterMap (fun i => l[i]?) = l.take n := by
    induction n with
    | zero => rfl
    | succ n ih =>
        rw [List.range_succ, List.filterMap_append, ih, List.take_add_one]
        cases hopt : l[n]? with
        | none => simp [hopt]
        | some a => simp [hopt]
  rw [← hrange, ← List.map_coe_finRange_eq_range, List.filterMap_map]
  rfl

section

variable {γ α : Type} {r : Rules Lfs γ} {g : γ} {geo : Geometry} {d : Fin Nlfl}
  {e : Fin LF_NUM_DIR_ENT} {ownI ownD : Set UInt32} {Q : α → γ → Lfs → Prop} {s : Lfs}
  {il dl ibs dbs : List UInt32} {bytes : List UInt8}

/-- A data block is written with a link to the head of the free list, which it becomes. -/
theorem Inside.lfdbfree (hr : Inside r g geo d e ownI ownD) {b : UInt32} (hb : geo.IsData b)
    (hown : b ∈ ownD) {f : Unit → Prog Lfs α}
    (hf : ∀ s' c u, s'.view d e = { s.view d e with
        disk := upd (upd s.disk b.toNat (Lfdbfree.layout
          { lfNextdb := s.lfDir.lfdDfree, lfUnused := u })) LF_AREA_DIR c,
        dfree := b } → Sure r Q (f ()) g s') :
    Sure r Q (Lfs.lfdbfree b >>= f) g s := by
  unfold Lfs.lfdbfree
  rw [bind_assoc_eq, sure_get]
  change Sure r Q ((Prog.modify (fun s => { s with stack := fun n => s.stack (n + 1) }) >>= _)
    >>= f) g s
  rw [bind_assoc_eq]
  apply hr.modify within_stack
  rw [bind_assoc_eq]
  apply hr.modify (within_setDir rfl rfl)
  rw [bind_assoc_eq]
  apply hr.writeBlock hb hown (fun _ _ => rfl)
  intro s₁ hs₁
  apply hr.writeDir
  intro s₂ c hs₂
  apply hf s₂ c (s.stack 0)
  have hdisk₁ : s₁.disk = upd s.disk b.toNat (Lfdbfree.layout
      { lfNextdb := s.lfDir.lfdDfree, lfUnused := s.stack 0 }) := congrArg View.disk hs₁
  rw [hs₂, hdisk₁, hs₁]
  rfl

/-- The state of the loop of {lit}`lftruncate` before index block number {lit}`k`: the blocks
before it lead to it, or behind the last one to the free list, and those from it on are
still on the disk. -/
structure Disposing (ibs dbs : List UInt32) (first : UInt32) (v : View) (k : Nat)
    (il dl : List UInt32) : Prop where
  pool : Pool v.disk v.ifree v.dfree il dl
  done : Chain (fun a => (iblkAt v.disk a).ibNext) ((ibs.drop k).headD v.ifree) first
    (ibs.take k)
  rest : ∀ j a, k ≤ j → ibs[j]? = some a → iblkAt v.disk a = indexBlock ibs dbs j

/-- The last index block of the file is linked to the free list, the others as they were. -/
theorem disposed_next (hs : Shares geo ownI ownD il dl ibs dbs) (ifree : UInt32) (k : Nat)
    (dbs' : List UInt32) :
    (disposed ifree (indexBlock ibs dbs' k)).ibNext = (ibs.drop (k + 1)).headD ifree := by
  unfold disposed indexBlock
  cases hopt : ibs[k + 1]? with
  | none =>
      have hle := List.getElem?_eq_none_iff.mp hopt
      simp [List.drop_eq_nil_of_le hle]
  | some x =>
      have hx : x ≠ LF_INULL := (hs.isIndex (List.mem_of_getElem? hopt)).ne_null
      have hlt := (List.getElem?_eq_some_iff.mp hopt).1
      rw [List.drop_eq_getElem_cons hlt, (List.getElem?_eq_some_iff.mp hopt).2]
      simp [hx]

namespace Disposing

variable {v : View} {first b : UInt32} {k : Nat}

/-- Freeing a data block of the file. -/
theorem free (h : Disposing ibs dbs first v k il dl) {dl₀ dbs₀ : List UInt32}
    (hs : Shares geo ownI ownD il dl₀ ibs dbs₀) (hb : geo.IsData b) (hnew : b ∉ dl)
    (hdl : ∀ x ∈ dl, geo.IsData x) (c : Sector) (u : Fin 508 → UInt8) :
    Disposing ibs dbs first { v with
      disk := upd (upd v.disk b.toNat (Lfdbfree.layout { lfNextdb := v.dfree, lfUnused := u }))
        LF_AREA_DIR c,
      dfree := b } k il (b :: dl) := by
  have hindex : ∀ a, geo.IsIndex a →
      iblkAt (upd (upd v.disk b.toNat (Lfdbfree.layout { lfNextdb := v.dfree, lfUnused := u }))
        LF_AREA_DIR c) a = iblkAt v.disk a := by
    intro a ha
    have h1 := ha.sect
    have h2 := hb.1
    rw [iblkAt_upd (by unfold LF_AREA_DIR; omega), iblkAt_upd (by omega)]
  have hb0 : b.toNat ≠ LF_AREA_DIR := by
    have h2 := hb.1
    unfold LF_AREA_DIR
    omega
  refine { pool := { index := ?_, data := ⟨rfl, ?_⟩ }, done := ?_, rest := ?_ }
  · exact h.pool.index.congr fun a ha => by rw [hindex a (hs.freeIndex ha)]
  · have hlink : dlink (upd (upd v.disk b.toNat
        (Lfdbfree.layout { lfNextdb := v.dfree, lfUnused := u })) LF_AREA_DIR c) b
        = v.dfree := by
      unfold dlink
      rw [upd_of_ne hb0, upd_self, Equiv.symm_apply_apply]
    change Chain _ _ (dlink _ b) dl
    rw [hlink]
    apply h.pool.data.congr
    intro x hx
    have hx0 : x.toNat ≠ LF_AREA_DIR := by
      have h2 := (hdl x hx).1
      unfold LF_AREA_DIR
      omega
    have hxb : x.toNat ≠ b.toNat := fun heq => hnew (UInt32.toNat_inj.mp heq ▸ hx)
    change (Lfdbfree.layout.symm (upd (upd v.disk b.toNat _) LF_AREA_DIR c x.toNat)).lfNextdb = _
    rw [upd_of_ne hx0, upd_of_ne hxb]
    rfl
  · exact h.done.congr fun a ha => by rw [hindex a (hs.isIndex (List.mem_of_mem_take ha))]
  · intro j a hj ha
    rw [hindex a (hs.isIndex (List.mem_of_getElem? ha))]
    exact h.rest j a hj ha

/-- Rewriting the index block at which the loop is. -/
theorem dispose (h : Disposing ibs dbs first v k il dl) {dl₀ dbs₀ : List UInt32}
    (hs : Shares geo ownI ownD il dl₀ ibs dbs₀) {a : UInt32} (ha : ibs[k]? = some a)
    (hdl : ∀ x ∈ dl, geo.IsData x) :
    Disposing ibs dbs first
      { v with disk := putIblk v.disk a (disposed v.ifree (indexBlock ibs dbs k)) }
      (k + 1) il dl := by
  have hmem : a ∈ ibs := List.mem_of_getElem? ha
  have hklt : k < ibs.length := (List.getElem?_eq_some_iff.mp ha).1
  have hak : ibs[k] = a := (List.getElem?_eq_some_iff.mp ha).2
  have hnext := disposed_next hs v.ifree k dbs
  refine { pool := ?_, done := ?_, rest := ?_ }
  · apply h.pool.congr
    · intro x hx
      exact iblkAt_putIblk_of_ne ((List.nodup_append.mp hs.inodup).2.2 x hx a hmem)
    · intro b hb
      have h1 := (hs.isIndex hmem).sect
      have h2 := (hdl b hb).1
      exact putIblk_of_ne (by omega)
  · have hlast : Chain (fun x => (iblkAt (putIblk v.disk a
        (disposed v.ifree (indexBlock ibs dbs k))) x).ibNext)
        ((ibs.drop (k + 1)).headD v.ifree) a [a] := by
      refine ⟨rfl, ?_⟩
      change (iblkAt (putIblk v.disk a _) a).ibNext = _
      rw [iblkAt_putIblk_self, hnext]
    have hfirst : Chain (fun x => (iblkAt (putIblk v.disk a
        (disposed v.ifree (indexBlock ibs dbs k))) x).ibNext) a first (ibs.take k) := by
      have hdone := h.done
      rw [List.drop_eq_getElem_cons hklt, List.headD_cons, hak] at hdone
      apply hdone.congr
      intro x hx
      have hxa : x ≠ a := by
        intro heq
        rw [heq] at hx
        rcases List.getElem?_of_mem hx with ⟨j, hj⟩
        have hjk : j < k := by
          have := (List.getElem?_eq_some_iff.mp hj).1
          rw [List.length_take] at this
          omega
        rw [List.getElem?_take_of_lt hjk] at hj
        exact absurd (place_unique hs.ibs_nodup hj ha) (by omega)
      rw [iblkAt_putIblk_of_ne hxa]
    rw [List.take_add_one, ha]
    exact hfirst.append hlast
  · intro j x hj hx
    have hxa : x ≠ a := by
      intro heq
      rw [heq] at hx
      exact absurd (place_unique hs.ibs_nodup hx ha) (by omega)
    rw [iblkAt_putIblk_of_ne hxa]
    exact h.rest j x (by omega) hx

end Disposing

/-- The data blocks that the loop of {lit}`lftruncate` has freed before index block number
{lit}`k`, with those of it that are still to come. -/
structure Freed (dl dbs : List UInt32) (k : Nat) (left : List (Fin LF_IBLEN))
    (dl' : List UInt32) : Prop where
  perm : (dl' ++ left.filterMap (fun i => dbs[16 * k + i.val]?) ++ dbs.drop (16 * (k + 1))).Perm
    (dl ++ dbs)

namespace Freed

variable {dl' : List UInt32} {k : Nat} {left : List (Fin LF_IBLEN)} {i : Fin LF_IBLEN}

/-- Before the loop over an index block. -/
theorem enter (h : (dl' ++ dbs.drop (16 * k)).Perm (dl ++ dbs)) :
    Freed dl dbs k (List.finRange LF_IBLEN) dl' where
  perm := by
    have htake : (List.finRange LF_IBLEN).filterMap (fun i => dbs[16 * k + i.val]?)
        = (dbs.drop (16 * k)).take 16 := by
      rw [← filterMap_finRange]
      apply List.filterMap_congr
      intro i _
      rw [List.getElem?_drop]
    have hdrop : dbs.drop (16 * (k + 1)) = (dbs.drop (16 * k)).drop 16 := by
      rw [List.drop_drop]
      congr 1
    rw [htake, hdrop, List.append_assoc, List.take_append_drop]
    exact h

/-- Behind the loop over an index block. -/
theorem leave (h : Freed dl dbs k [] dl') :
    (dl' ++ dbs.drop (16 * (k + 1))).Perm (dl ++ dbs) := by
  have hperm := h.perm
  simpa using hperm

theorem skip (h : Freed dl dbs k (i :: left) dl') (hi : dbs[16 * k + i.val]? = none) :
    Freed dl dbs k left dl' where
  perm := by
    have hperm := h.perm
    rwa [List.filterMap_cons_none (f := fun i : Fin LF_IBLEN => dbs[16 * k + i.val]?) hi] at hperm

theorem take {b : UInt32} (h : Freed dl dbs k (i :: left) dl')
    (hi : dbs[16 * k + i.val]? = some b) : Freed dl dbs k left (b :: dl') where
  perm := by
    have hperm := h.perm
    rw [List.filterMap_cons_some (f := fun i : Fin LF_IBLEN => dbs[16 * k + i.val]?) hi] at hperm
    refine List.Perm.trans ?_ hperm
    simp only [List.append_assoc, List.cons_append]
    exact List.perm_middle.symm

theorem notMem {b : UInt32} (h : Freed dl dbs k (i :: left) dl')
    (hn : (dl ++ dbs).Nodup) (hi : dbs[16 * k + i.val]? = some b) : b ∉ dl' := by
  have hnodup := h.perm.nodup_iff.mpr hn
  rw [List.filterMap_cons_some (f := fun i : Fin LF_IBLEN => dbs[16 * k + i.val]?) hi,
    List.append_assoc] at hnodup
  intro hb
  exact (List.nodup_append.mp hnodup).2.2 b hb b (by simp) rfl

theorem mem {x : UInt32} (h : Freed dl dbs k left dl') (hx : x ∈ dl') : x ∈ dl ++ dbs := by
  apply h.perm.subset
  simp [hx]

end Freed

/-- One round of the loop of {lit}`lftruncate`. -/
theorem Inside.disposeIblock (hr : Inside r g geo d e ownI ownD) {first a : UInt32} {k : Nat}
    {dl' : List UInt32} (hs : Shares geo ownI ownD il dl ibs dbs)
    (hd : Disposing ibs dbs first (s.view d e) k il dl') (ha : ibs[k]? = some a)
    (hperm : (dl' ++ dbs.drop (16 * k)).Perm (dl ++ dbs))
    {f : (UInt32 ⊕ Unit) → Prog Lfs α}
    (hf : ∀ s' dl'', Disposing ibs dbs first (s'.view d e) (k + 1) il dl'' →
      (dl'' ++ dbs.drop (16 * (k + 1))).Perm (dl ++ dbs) →
      s'.lfltab d = s.lfltab d → s'.lfDir.lfdFiles e = s.lfDir.lfdFiles e →
      s'.lfDir.lfdIfree = s.lfDir.lfdIfree →
      Sure r Q (f (.inl ((ibs.drop (k + 1)).headD s.lfDir.lfdIfree))) g s') :
    Sure r Q (Lfs.disposeIblock s.lfDir.lfdIfree a >>= f) g s := by
  have hmem : a ∈ ibs := List.mem_of_getElem? ha
  have hdata : ∀ x ∈ dl ++ dbs, geo.IsData x ∧ x ∈ ownD := by
    intro x hx
    have hown : x ∈ ownD := (hs.down x).mpr (List.mem_append.mp hx)
    exact ⟨hs.data x hown, hown⟩
  have hne : a ≠ s.lfDir.lfdIfree := by
    intro heq
    have hhead : s.lfDir.lfdIfree = il.headD LF_INULL := hd.pool.index.head_eq
    rw [hhead] at heq
    cases hil : il with
    | nil =>
        rw [hil] at heq
        exact (hs.isIndex hmem).ne_null heq
    | cons x l =>
        rw [hil] at heq
        exact (List.nodup_append.mp hs.inodup).2.2 x (by simp [hil]) a hmem heq.symm
  unfold Lfs.disposeIblock
  rw [if_neg hne, bind_assoc_eq]
  apply hr.lfibget
  intro s₁ hs₁
  rw [show iblkAt s.disk a = indexBlock ibs dbs k from hd.rest k a (Nat.le_refl k) ha,
    bind_assoc_eq]
  -- the data blocks
  refine Sure.bind (P := fun _ g' (t : Lfs) => g' = g ∧ ∃ dl'',
    Disposing ibs dbs first (t.view d e) k il dl'' ∧ Freed dl dbs k [] dl'' ∧
      t.lfltab d = s.lfltab d ∧
      t.lfDir.lfdFiles e = s.lfDir.lfdFiles e ∧ t.lfDir.lfdIfree = s.lfDir.lfdIfree) ?_ ?_
  · refine Sure.forEach (I := fun left g' (t : Lfs) => g' = g ∧ ∃ dl'',
      Disposing ibs dbs first (t.view d e) k il dl'' ∧ Freed dl dbs k left dl'' ∧
      t.lfltab d = s.lfltab d ∧ t.lfDir.lfdFiles e = s.lfDir.lfdFiles e ∧
      t.lfDir.lfdIfree = s.lfDir.lfdIfree)
      ⟨rfl, dl', by rw [hs₁]; exact hd, Freed.enter hperm, congrArg View.blk hs₁,
        congrArg View.ent hs₁, congrArg View.ifree hs₁⟩ ?_
    rintro i left g' t ⟨hgg, dl'', hd'', hfreed, hblk, hent, hifree⟩
    rw [hgg]
    have hdba : (indexBlock ibs dbs k).ibDba i = (dbs[16 * k + i.val]?).getD LF_DNULL := rfl
    rw [hdba]
    cases hopt : dbs[16 * k + i.val]? with
    | none => exact ⟨rfl, dl'', hd'', hfreed.skip hopt, hblk, hent, hifree⟩
    | some b =>
        have hb := hdata b (by simp [List.mem_of_getElem? hopt])
        have hwhen : when (decide ((some b).getD LF_DNULL ≠ LF_DNULL))
            (Lfs.lfdbfree ((some b).getD LF_DNULL)) = Lfs.lfdbfree b >>= pure := by
          rw [bind_pure_eq, Option.getD_some]
          unfold Prog.when
          rw [if_pos (by simpa using hb.1.ne_null)]
        rw [hwhen]
        apply hr.lfdbfree hb.1 hb.2
        intro t' c u ht'
        have hdl'' : ∀ x ∈ dl'', geo.IsData x := fun x hx => (hdata x (hfreed.mem hx)).1
        refine ⟨rfl, b :: dl'', ?_, hfreed.take hopt, (congrArg View.blk ht').trans hblk,
          (congrArg View.ent ht').trans hent, (congrArg View.ifree ht').trans hifree⟩
        rw [ht']
        exact hd''.free hs hb.1 (hfreed.notMem hs.dnodup hopt) hdl'' c u
  · rintro _ g' t ⟨hgg, dl'', hd'', hfreed, hblk, hent, hifree⟩
    rw [hgg, bind_assoc_eq]
    apply hr.lfibput _ (hs.isIndex hmem) ((hs.iown _).mpr (Or.inr hmem)) (fun _ _ => rfl)
    intro s₂ hs₂
    have hdl'' : ∀ x ∈ dl'', geo.IsData x := fun x hx => (hdata x (hfreed.mem hx)).1
    have hnext := hd''.dispose hs ha hdl''
    change Sure r Q (f (.inl (disposed s.lfDir.lfdIfree (indexBlock ibs dbs k)).ibNext)) g s₂
    rw [disposed_next hs]
    apply hf s₂ dl'' ?_ hfreed.leave ((congrArg View.blk hs₂).trans hblk)
      ((congrArg View.ent hs₂).trans hent) ((congrArg View.ifree hs₂).trans hifree)
    rw [hs₂, ← hifree]
    exact hnext

/-- A file without blocks. -/
theorem fileOk_nil {disk : Nat → Sector} {ent : Ldentry} {blk : Lflcblk}
    (hsize : ent.ldSize = 0) (hlist : ent.ldIlist = LF_INULL) (hinum : blk.lfinum = LF_INULL)
    (hdnum : blk.lfdnum = LF_DNULL) (hi : blk.lfibdirty = false) (hd : blk.lfdbdirty = false) :
    FileOk disk ent blk [] [] [] where
  size := by rw [hsize]; rfl
  ilist := hlist
  room := Nat.zero_le _
  inum := Or.inl ⟨hinum, hi⟩
  dnum := Or.inl ⟨hdnum, hd⟩
  indexMem _ h := by simp at h
  indexDisk _ _ h := by simp at h
  dataMem _ _ h := by simp at h
  dataDisk _ _ _ h := by simp at h

/-- When all index blocks have been rewritten, they and the free list are one list. -/
theorem Disposing.finish {v : View} {first : UInt32} {k : Nat} {dl' : List UInt32}
    (hd : Disposing ibs dbs first v k il dl') (hk : ibs.length ≤ k) :
    Pool v.disk first v.dfree (ibs ++ il) dl' where
  index := by
    have hdone := hd.done
    rw [List.drop_eq_nil_of_le hk, List.take_of_length_le hk] at hdone
    exact hdone.append hd.pool.index
  data := hd.pool.data

/-- All blocks of a file go to the free lists. -/
theorem Shares.giveBack {dl' : List UInt32} (hs : Shares geo ownI ownD il dl ibs dbs)
    (hperm : dl'.Perm (dl ++ dbs)) : Shares geo ownI ownD (ibs ++ il) dl' [] [] where
  inodup := by
    rw [List.append_nil]
    exact List.perm_append_comm.nodup_iff.mpr hs.inodup
  dnodup := by
    rw [List.append_nil]
    exact hperm.nodup_iff.mpr hs.dnodup
  iown a := by
    rw [hs.iown a]
    simp only [List.mem_append, List.not_mem_nil, or_false]
    tauto
  down b := by
    rw [hs.down b, hperm.mem_iff]
    simp
  index := hs.index
  data := hs.data

/-- The loop over the index blocks of a file puts all its data blocks on the free list and
links its index blocks in front of the free ones. -/
theorem Inside.disposeIblocks (hr : Inside r g geo d e ownI ownD)
    (hs : Shares geo ownI ownD il dl ibs dbs) (hne : ibs ≠ [])
    (hd : Disposing ibs dbs (ibs.headD LF_INULL) (s.view d e) 0 il dl) {f : Unit → Prog Lfs α}
    (hf : ∀ t k dl', ibs.length ≤ k →
      Disposing ibs dbs (ibs.headD LF_INULL) (t.view d e) k il dl' →
      (dl' ++ dbs.drop (16 * k)).Perm (dl ++ dbs) → t.lfltab d = s.lfltab d →
      t.lfDir.lfdFiles e = s.lfDir.lfdFiles e → Sure r Q (f ()) g t) :
    Sure r Q (Prog.loop (Lfs.disposeIblock s.lfDir.lfdIfree) chainFuel (ibs.headD LF_INULL)
      >>= f) g s := by
  have hheadD : ibs.headD LF_INULL = (ibs.drop 0).headD s.lfDir.lfdIfree := by
    cases ibs with
    | nil => exact absurd rfl hne
    | cons a l => rfl
  refine Sure.bind (P := fun _ g' (t : Lfs) => g' = g ∧ ∃ k dl', ibs.length ≤ k ∧
    Disposing ibs dbs (ibs.headD LF_INULL) (t.view d e) k il dl' ∧
    (dl' ++ dbs.drop (16 * k)).Perm (dl ++ dbs) ∧ t.lfltab d = s.lfltab d ∧
    t.lfDir.lfdFiles e = s.lfDir.lfdFiles e) ?_ ?_
  · refine Sure.loop (I := fun m next g' (t : Lfs) => g' = g ∧ ∃ k dl', m = ibs.length - k ∧
      next = (ibs.drop k).headD s.lfDir.lfdIfree ∧
      Disposing ibs dbs (ibs.headD LF_INULL) (t.view d e) k il dl' ∧
      (dl' ++ dbs.drop (16 * k)).Perm (dl ++ dbs) ∧ t.lfltab d = s.lfltab d ∧
      t.lfDir.lfdFiles e = s.lfDir.lfdFiles e ∧ t.lfDir.lfdIfree = s.lfDir.lfdIfree)
      (k := ibs.length) ?_ ⟨rfl, 0, dl, rfl, hheadD, hd, by simp, rfl, rfl, rfl⟩ ?_
    · have := hs.length_lt
      unfold chainFuel
      omega
    · rintro m next g' t ⟨hgg, k, dl', rfl, rfl, hd, hperm, hblk, hent, hifree⟩
      rw [hgg]
      cases hopt : ibs[k]? with
      | none =>
          have hle := List.getElem?_eq_none_iff.mp hopt
          rw [List.drop_eq_nil_of_le hle]
          unfold Lfs.disposeIblock
          rw [if_pos (show ([] : List UInt32).headD s.lfDir.lfdIfree
            = s.lfDir.lfdIfree from rfl)]
          exact ⟨rfl, k, dl', hle, hd, hperm, hblk, hent⟩
      | some a =>
          have hlt := (List.getElem?_eq_some_iff.mp hopt).1
          rw [List.drop_eq_getElem_cons hlt, (List.getElem?_eq_some_iff.mp hopt).2,
            List.headD_cons, ← hifree, ← bind_pure_eq (Lfs.disposeIblock _ _)]
          apply hr.disposeIblock hs hd hopt hperm
          intro t' dl'' hd' hperm' hblk' hent' hifree'
          exact ⟨ibs.length - (k + 1), by omega, rfl, k + 1, dl'', rfl, rfl, hd', hperm',
            hblk'.trans hblk, hent'.trans hent, hifree'⟩
  · rintro _ g' t ⟨hgg, k, dl', hk, hd, hperm, hblk, hent⟩
    rw [hgg]
    exact hf t k dl' hk hd hperm hblk hent

/-- With the directory's mutex, {lit}`lftruncate` leaves an empty file alone, and otherwise
puts all blocks of the file on the free lists. -/
theorem Inside.lftruncate (hr : Inside r g geo d e ownI ownD)
    (hs : Shares geo ownI ownD il dl ibs dbs) (hh : Holds (s.view d e) il dl ibs dbs bytes)
    (hused : (s.lfltab d).lfstate = .used) (hentry : (s.lfltab d).lfdirptr = e)
    (hsized : Sized ibs dbs bytes.length) {f : Int → Prog Lfs α}
    (hempty : bytes = [] → Sure r Q (f OK) g s)
    (hf : ∀ s' il' dl', Shares geo ownI ownD il' dl' [] [] →
      Holds (s'.view d e) il' dl' [] [] [] → (s'.lfltab d).lfpos = 0 →
      (s'.lfltab d).lfbyte = LF_BLKSIZ → bytes ≠ [] → s'.lfDirdirty = true →
      Sure r Q (f OK) g s') :
    Sure r Q (Lfs.lftruncate d >>= f) g s := by
  have hsize : (s.entryOf d).ldSize.toNat = bytes.length := by
    unfold Lfs.entryOf
    rw [hentry]
    exact hh.file.size
  unfold Lfs.lftruncate
  rw [bind_assoc_eq, sure_get]
  by_cases hzero : (s.entryOf d).ldSize = 0
  · rw [if_pos hzero]
    rw [hzero] at hsize
    exact hempty (List.length_eq_zero_iff.mp hsize.symm)
  have hbytes : bytes ≠ [] := by
    intro heq
    rw [heq] at hsize
    exact hzero (UInt32.toNat_inj.mp hsize)
  rw [if_neg hzero, bind_assoc_eq]
  apply hr.flushWhen hs hh hused
  intro s₁ hh₁ hb₁
  rw [bind_assoc_eq]
  apply hr.modify (within_setBlk rfl)
  rw [bind_assoc_eq, sure_get]
  have hibs : ibs ≠ [] := by
    intro heq
    have hindex := hsized.index
    have hlen := List.length_pos_iff.mpr hbytes
    rw [heq] at hindex
    simp at hindex
    omega
  generalize hs₂ : s₁.setBlk d (fun blk => { blk with
    lfpos := 0, lfinum := LF_INULL, lfdnum := LF_DNULL, lfbyte := LF_BLKSIZ }) = s₂
  have hview₂ : s₂.view d e = { s₁.view d e with blk := { saved (s.lfltab d) with
      lfpos := 0, lfinum := LF_INULL, lfdnum := LF_DNULL, lfbyte := LF_BLKSIZ } } := by
    rw [← hs₂, view_setBlk, show (s₁.view d e).blk = saved (s.lfltab d) from hb₁]
  have hblk₂ : s₂.lfltab d = { saved (s.lfltab d) with
      lfpos := 0, lfinum := LF_INULL, lfdnum := LF_DNULL, lfbyte := LF_BLKSIZ } :=
    congrArg View.blk hview₂
  have hent₂ : s₂.lfDir.lfdFiles e = s₁.lfDir.lfdFiles e := congrArg View.ent hview₂
  have hentry₂ : (s₂.lfltab d).lfdirptr = e := by
    rw [hblk₂]
    exact hentry
  have hfirst : (s₂.entryOf d).ldIlist = ibs.headD LF_INULL := by
    unfold Lfs.entryOf
    rw [hentry₂, hent₂]
    exact hh₁.file.ilist
  have hheadD : ibs.headD LF_INULL = (ibs.drop 0).headD s₂.lfDir.lfdIfree := by
    cases ibs with
    | nil => exact absurd rfl hibs
    | cons a l => rfl
  change Sure r Q ((Prog.modify (fun s => s.setEntry (s.lfltab d).lfdirptr fun e =>
    { e with ldIlist := LF_INULL, ldSize := 0 }) >>= _) >>= f) g s₂
  rw [bind_assoc_eq]
  apply hr.modify
  · rw [hentry₂]
    exact within_setEntry rfl
  rw [bind_assoc_eq]
  apply hr.modify within_setDirdirty
  rw [hentry₂, hfirst, bind_assoc_eq]
  generalize hs₃ : (s₂.setEntry e fun e => { e with ldIlist := LF_INULL, ldSize := 0 }).setDirdirty
    true = s₃
  have hview₃ : s₃.view d e = { s₂.view d e with
      ent := { s₁.lfDir.lfdFiles e with ldIlist := LF_INULL, ldSize := 0 } } := by
    rw [← hs₃, view_setDirdirty, view_setEntry]
    rw [show (s₂.view d e).ent = s₁.lfDir.lfdFiles e from hent₂]
  have hblk₃ : s₃.lfltab d = s₂.lfltab d := congrArg View.blk hview₃
  have hent₃ : s₃.lfDir.lfdFiles e
      = { s₁.lfDir.lfdFiles e with ldIlist := LF_INULL, ldSize := 0 } := congrArg View.ent hview₃
  have hifree₃ : s₃.lfDir.lfdIfree = s₂.lfDir.lfdIfree := congrArg View.ifree hview₃
  have hstart : Disposing ibs dbs (ibs.headD LF_INULL) (s₃.view d e) 0 il dl := by
    rw [hview₃, hview₂]
    exact { pool := hh₁.pool
            done := by
              rw [List.take_zero, hheadD]
              change _ = _
              rw [show s₂.lfDir.lfdIfree = s₁.lfDir.lfdIfree from congrArg View.ifree hview₂]
              rfl
            rest := fun j a _ ha => hh₁.file.indexDisk j a ha fun _ => by
              rw [show (s₁.view d e).blk = saved (s.lfltab d) from hb₁]
              rfl }
  rw [← hifree₃]
  apply hr.disposeIblocks hs hibs hstart
  intro t k dl' hk hd hperm hblk hent
  rw [bind_assoc_eq]
  apply hr.modify (within_setDir rfl rfl)
  rw [bind_assoc_eq]
  apply hr.modify within_setDirdirty
  have hlen : dbs.length ≤ 16 * k := by
    have h1 := hsized.data
    have h2 := hsized.index
    omega
  rw [List.drop_eq_nil_of_le hlen, List.append_nil] at hperm
  apply hf _ (ibs ++ il) dl' (hs.giveBack hperm) ?_ ?_ ?_ hbytes rfl
  · rw [view_setDirdirty]
    exact { file := by
              apply fileOk_nil
              · exact congrArg Ldentry.ldSize (hent.trans hent₃)
              · exact congrArg Ldentry.ldIlist (hent.trans hent₃)
              · exact congrArg Lflcblk.lfinum (hblk.trans (hblk₃.trans hblk₂))
              · exact congrArg Lflcblk.lfdnum (hblk.trans (hblk₃.trans hblk₂))
              · exact congrArg Lflcblk.lfibdirty (hblk.trans (hblk₃.trans hblk₂))
              · exact congrArg Lflcblk.lfdbdirty (hblk.trans (hblk₃.trans hblk₂))
            pool := hd.finish hk }
  · exact congrArg Lflcblk.lfpos (hblk.trans (hblk₃.trans hblk₂))
  · exact congrArg Lflcblk.lfbyte (hblk.trans (hblk₃.trans hblk₂))

end

end Lfs
end BbbXinu
