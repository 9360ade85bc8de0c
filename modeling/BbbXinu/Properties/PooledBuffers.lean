import BbbXinu.Kernel.BufferPools

/-!
# The buffers of a pool

A buffer of a pool is either in use, or on the list that starts at the entry of the pool.  The
semaphore of the pool has a unit for each buffer of the list, but for those that it has given to
processes that were released and did not take a buffer yet.
-/

namespace BbbXinu
namespace BufferPools

/-- A pool that {lit}`getbuf` accepts. -/
def Valid (t : BufferPools) (poolid : Int) : Prop := 0 ≤ poolid ∧ poolid < t.nbpools

/-- A word among the data of a buffer. -/
def InData (t : BufferPools) (poolid : Int) (b addr : Nat) : Prop :=
  b + 4 ≤ addr ∧ addr + 4 ≤ b + 4 + (t.buftab poolid).bpsize

/-- A word that has no byte of a buffer. -/
def Outside (t : BufferPools) (poolid : Int) (b addr : Nat) : Prop :=
  addr + 4 ≤ b ∨ b + 4 + (t.buftab poolid).bpsize ≤ addr

/-- The memory of a new pool is new, a buffer that is freed is in use, and words are stored only
into the data of buffers in use, and outside of all buffers. -/
def Proper (t : BufferPools) : BufferLabel → Prop
  | .mkbufpool bufsiz numbufs (some buf) _ =>
      let length := numbufs.toNat * uint32 ((bufsiz + 3) / 4 * 4 + 4)
      0 < buf ∧ buf + length ≤ 4294967296 ∧
        ∀ poolid, t.Valid poolid → ∀ b ∈ t.buffers poolid,
          b + 4 + (t.buftab poolid).bpsize ≤ buf ∨ buf + length ≤ b
  | .freebuf bufaddr => bufaddr ∈ t.inUse
  | .store addr _ => ∀ poolid, t.Valid poolid → ∀ b ∈ t.buffers poolid,
      t.Outside poolid b addr ∨ b + 4 ∈ t.inUse ∧ t.InData poolid b addr
  | _ => True

/-- The list of a pool has just the buffers of the pool that are not in use, each of them once,
and there is one for each unit of the semaphore and for each process that was released. -/
structure Listed (t : BufferPools) (poolid : Int) (l : List Nat) : Prop where
  chain : Chains.Chain t.word 0 (t.buftab poolid).bpnext l
  mem_iff : ∀ b, b ∈ l ↔ b ∈ t.buffers poolid ∧ b + 4 ∉ t.inUse
  units : (l.length : Int) = (t.buftab poolid).bpsem.units

/-- No buffer is in use twice, the hidden number of a buffer in use is that of its pool, and the
other buffers are on the lists. -/
structure Kept (t : BufferPools) : Prop where
  once : t.inUse.Nodup
  used : ∀ a ∈ t.inUse, ∃ poolid, t.Valid poolid ∧ ∃ b ∈ t.buffers poolid,
    a = b + 4 ∧ t.word b = poolid.toNat
  free : ∀ poolid, t.Valid poolid → ∃ l, t.Listed poolid l

/-- The buffers of the pools lie apart from each other, and not at the null pointer. -/
structure Placed (t : BufferPools) : Prop where
  place : ∀ poolid, t.Valid poolid → ∀ b ∈ t.buffers poolid,
    0 < b ∧ b + 4 + (t.buftab poolid).bpsize ≤ 4294967296 ∧ 0 < (t.buftab poolid).bpsize
  apart : ∀ poolid poolid', t.Valid poolid → t.Valid poolid' →
    ∀ b ∈ t.buffers poolid, ∀ b' ∈ t.buffers poolid', b ≠ b' ∨ poolid ≠ poolid' →
      b + 4 + (t.buftab poolid).bpsize ≤ b' ∨ b' + 4 + (t.buftab poolid').bpsize ≤ b

structure Sound (t : BufferPools) : Prop where
  kept : t.Kept
  placed : t.Placed
  nbpools : 0 ≤ t.nbpools ∧ t.nbpools ≤ NBPOOLS
  waiting : ∀ pid poolid, t.waiting pid = some poolid → t.Valid poolid

section

variable {t t' : BufferPools} {poolid poolid' pid : Int} {b b' a addr value : Nat}
  {l : List Nat} {T : Turnstile Int} {label : BufferLabel}

theorem Valid.uint32_eq (h : t.Valid poolid) (hs : t.Sound) : uint32 poolid = poolid.toNat := by
  have hlt : poolid < 20 := Int.lt_of_lt_of_le h.2 hs.nbpools.2
  have h0 := h.1
  unfold uint32
  omega

theorem Valid.int32_eq (h : t.Valid poolid) (hs : t.Sound) : int32 poolid.toNat = poolid := by
  have hlt : poolid < 20 := Int.lt_of_lt_of_le h.2 hs.nbpools.2
  have h0 := h.1
  rw [BbbXinu.int32_eq (by omega) (by omega)]
  omega

/-!
## Addresses
-/

/-- Two pools have no buffer in common. -/
theorem Placed.pool_eq (h : t.Placed) (hpool : t.Valid poolid) (hpool' : t.Valid poolid')
    (hb : b ∈ t.buffers poolid) (hb' : b ∈ t.buffers poolid') : poolid = poolid' := by
  by_contra hne
  have hapart := h.apart poolid poolid' hpool hpool' b hb b hb' (Or.inr hne)
  omega

/-- The hidden number of a buffer in use. -/
theorem Sound.number (h : t.Sound) (hpool : t.Valid poolid) (hb : b ∈ t.buffers poolid)
    (hin : b + 4 ∈ t.inUse) : t.word b = poolid.toNat := by
  obtain ⟨poolid', hpool', b', hb', heq, hnumber⟩ := h.kept.used _ hin
  obtain rfl : b = b' := Nat.add_right_cancel heq
  rw [h.placed.pool_eq hpool hpool' hb hb']
  exact hnumber

/-- The address behind the first word does not wrap around. -/
theorem Placed.uint32_add (h : t.Placed) (hpool : t.Valid poolid) (hb : b ∈ t.buffers poolid) :
    uint32 (b + 4) = b + 4 := by
  have hplace := h.place poolid hpool b hb
  unfold uint32
  omega

theorem Placed.uint32_sub (h : t.Placed) (hpool : t.Valid poolid) (hb : b ∈ t.buffers poolid) :
    uint32 (((b + 4 : Nat) : Int) - 4) = b := by
  have hplace := h.place poolid hpool b hb
  unfold uint32
  omega

/-- A word of data, or outside, is not the first word of a buffer. -/
theorem ne_first (h : t.Outside poolid b addr ∨ t.InData poolid b addr) : b ≠ addr := by
  unfold Outside InData at h
  omega

/-!
## Changes
-/

/-- The pools stay where they are, and what is in use or listed is known again. -/
theorem Sound.rebuild (h : t.Sound) (hn : t'.nbpools = t.nbpools)
    (hbuffers : t'.buffers = t.buffers)
    (hsize : ∀ poolid, t.Valid poolid → (t'.buftab poolid).bpsize = (t.buftab poolid).bpsize)
    (honce : t'.inUse.Nodup)
    (hused : ∀ a ∈ t'.inUse, ∃ poolid, t.Valid poolid ∧ ∃ b ∈ t.buffers poolid,
      a = b + 4 ∧ t'.word b = poolid.toNat)
    (hfree : ∀ poolid, t.Valid poolid → ∃ l, t'.Listed poolid l)
    (hwaiting : ∀ pid poolid, t'.waiting pid = some poolid → t.Valid poolid) : t'.Sound := by
  have hvalid : t'.Valid = t.Valid := by
    funext poolid
    unfold Valid
    rw [hn]
  constructor
  · rw [← hbuffers, ← hvalid] at hused
    exact ⟨honce, hused, by rw [hvalid]; exact hfree⟩
  · constructor
    · rw [hvalid, hbuffers]
      intro poolid hpool
      rw [hsize poolid hpool]
      exact h.placed.place poolid hpool
    · rw [hvalid, hbuffers]
      intro poolid poolid' hpool hpool'
      rw [hsize poolid hpool, hsize poolid' hpool']
      exact h.placed.apart poolid poolid' hpool hpool'
  · rw [hn]
    exact h.nbpools
  · rw [hvalid]
    exact hwaiting

/-- The first words of the buffers and the entries of the pools are all that is looked at. -/
theorem Sound.congr (h : t.Sound) (hn : t'.nbpools = t.nbpools) (hbuffers : t'.buffers = t.buffers)
    (huse : t'.inUse = t.inUse)
    (hpools : ∀ poolid, t.Valid poolid → t'.buftab poolid = t.buftab poolid ∧
      ∀ b ∈ t.buffers poolid, t'.word b = t.word b)
    (hwaiting : ∀ pid poolid, t'.waiting pid = some poolid → t.Valid poolid) : t'.Sound := by
  apply h.rebuild hn hbuffers (fun poolid hpool => by rw [(hpools poolid hpool).1]) _ _ _ hwaiting
  · rw [huse]
    exact h.kept.once
  · rw [huse]
    intro a ha
    obtain ⟨poolid, hpool, b, hb, rfl, hnumber⟩ := h.kept.used a ha
    exact ⟨poolid, hpool, b, hb, rfl, ((hpools poolid hpool).2 b hb).trans hnumber⟩
  · intro poolid hpool
    obtain ⟨hentry, hword⟩ := hpools poolid hpool
    obtain ⟨l, hl⟩ := h.kept.free poolid hpool
    refine ⟨l, ?_, ?_, ?_⟩
    · rw [hentry]
      exact hl.chain.congr fun b hb => hword b ((hl.mem_iff b).mp hb).1
    · rw [huse, hbuffers]
      exact hl.mem_iff
    · rw [hentry]
      exact hl.units

/-- One pool changes: its entry but for the size, and the first words of its buffers. -/
structure Changes (t : BufferPools) (poolid : Int) (e : Bufpool) (t' : BufferPools) : Prop where
  buftab : t'.buftab = upd t.buftab poolid e
  bpsize : e.bpsize = (t.buftab poolid).bpsize
  nbpools : t'.nbpools = t.nbpools
  buffers : t'.buffers = t.buffers
  word : ∀ b, b ∉ t.buffers poolid → t'.word b = t.word b
  inUse : ∀ b, b ∉ t.buffers poolid → (b + 4 ∈ t'.inUse ↔ b + 4 ∈ t.inUse)
  inside : ∀ a ∈ t'.inUse, a ∈ t.inUse ∨ ∃ b ∈ t.buffers poolid, a = b + 4

theorem Sound.change {e : Bufpool} (h : t.Sound) (hpool : t.Valid poolid)
    (hc : t.Changes poolid e t') (honce : t'.inUse.Nodup)
    (hnumber : ∀ b ∈ t.buffers poolid, b + 4 ∈ t'.inUse → t'.word b = poolid.toNat)
    (hlist : Chains.Chain t'.word 0 e.bpnext l ∧
      (∀ b, b ∈ l ↔ b ∈ t.buffers poolid ∧ b + 4 ∉ t'.inUse) ∧ (l.length : Int) = e.bpsem.units)
    (hwaiting : ∀ pid poolid, t'.waiting pid = some poolid → t.Valid poolid) : t'.Sound := by
  apply h.rebuild hc.nbpools hc.buffers _ honce _ _ hwaiting
  · intro poolid' _
    rw [hc.buftab, upd_apply]
    split
    · rename_i heq
      rw [hc.bpsize, heq]
    · rfl
  · intro a ha
    have hown : ∀ b ∈ t.buffers poolid, a = b + 4 → ∃ poolid, t.Valid poolid ∧
        ∃ b ∈ t.buffers poolid, a = b + 4 ∧ t'.word b = poolid.toNat := by
      rintro b hb rfl
      exact ⟨poolid, hpool, b, hb, rfl, hnumber b hb ha⟩
    rcases hc.inside a ha with hold | ⟨b, hb, heq⟩
    · obtain ⟨poolid', hpool', b, hb, rfl, hnumber'⟩ := h.kept.used a hold
      by_cases hmem : b ∈ t.buffers poolid
      · exact hown b hmem rfl
      · exact ⟨poolid', hpool', b, hb, rfl, (hc.word b hmem).trans hnumber'⟩
    · exact hown b hb heq
  · intro poolid' hpool'
    by_cases hne : poolid' = poolid
    · subst hne
      refine ⟨l, ?_, ?_, ?_⟩
      · rw [hc.buftab, upd_self]
        exact hlist.1
      · rw [hc.buffers]
        exact hlist.2.1
      · rw [hc.buftab, upd_self]
        exact hlist.2.2
    · obtain ⟨l', hl⟩ := h.kept.free poolid' hpool'
      -- the buffers of the other pools are not those of this one
      have hapart : ∀ b ∈ t.buffers poolid', b ∉ t.buffers poolid := fun b hb hb' =>
        hne (h.placed.pool_eq hpool' hpool hb hb')
      refine ⟨l', ?_, ?_, ?_⟩
      · rw [hc.buftab, upd_of_ne hne]
        exact hl.chain.congr fun b hb => hc.word b (hapart b ((hl.mem_iff b).mp hb).1)
      · intro b
        rw [hl.mem_iff, hc.buffers]
        exact and_congr_right fun hb => not_congr (hc.inUse b (hapart b hb)).symm
      · rw [hc.buftab, upd_of_ne hne]
        exact hl.units

/-!
## Handing out
-/

/-- A process that need not wait, or was released, takes a buffer; the units that are left are
those of the semaphore as it is then. -/
def pass (t : BufferPools) (poolid : Int) (T : Turnstile Int) : BufferPools :=
  (t.setPool poolid { t.buftab poolid with bpsem := T }).take poolid

/-- A buffer of a pool that is not in use is handed out. -/
def HandsOut (t : BufferPools) (poolid : Int) (t' : BufferPools) : Prop :=
  ∃ b ∈ t.buffers poolid, b + 4 ∉ t.inUse ∧ t'.inUse = (b + 4) :: t.inUse ∧
    t'.word = upd t.word b (uint32 poolid)

/-- The list of a pool that has a unit. -/
theorem Sound.first (h : t.Sound) (hpool : t.Valid poolid)
    (hunits : 0 < (t.buftab poolid).bpsem.units) :
    ∃ rest, t.Listed poolid ((t.buftab poolid).bpnext :: rest) ∧
      (t.buftab poolid).bpnext ∈ t.buffers poolid ∧ (t.buftab poolid).bpnext + 4 ∉ t.inUse := by
  obtain ⟨l, hl⟩ := h.kept.free poolid hpool
  have hne : (t.buftab poolid).bpnext ≠ 0 := by
    intro hnull
    have hlen := hl.units
    rw [hl.chain.eq_null_iff.mp hnull] at hlen
    change ((0 : Nat) : Int) = _ at hlen
    omega
  obtain ⟨rest, rfl, -⟩ := hl.chain.of_ne_null hne
  exact ⟨rest, hl, (hl.mem_iff _).mp List.mem_cons_self⟩

theorem pass_eq (h : t.Placed) (hpool : t.Valid poolid)
    (hb : (t.buftab poolid).bpnext ∈ t.buffers poolid) : t.pass poolid T =
      { t.setPool poolid { t.buftab poolid with
          bpnext := t.word (t.buftab poolid).bpnext, bpsem := T } with
        word := upd t.word (t.buftab poolid).bpnext (uint32 poolid)
        inUse := ((t.buftab poolid).bpnext + 4) :: t.inUse } := by
  unfold pass take setPool
  simp [h.uint32_add hpool hb]

theorem Sound.hands_out (h : t.Sound) (hpool : t.Valid poolid)
    (hunits : 0 < (t.buftab poolid).bpsem.units) : t.HandsOut poolid (t.pass poolid T) := by
  obtain ⟨rest, -, hb, hfree⟩ := h.first hpool hunits
  rw [pass_eq h.placed hpool hb]
  exact ⟨_, hb, hfree, rfl, rfl⟩

theorem Sound.pass (h : t.Sound) (hpool : t.Valid poolid)
    (hunits : 0 < (t.buftab poolid).bpsem.units)
    (hT : T.units = (t.buftab poolid).bpsem.units - 1) : (t.pass poolid T).Sound := by
  obtain ⟨rest, hl, hb, hfree⟩ := h.first hpool hunits
  rw [pass_eq h.placed hpool hb]
  have hnodup := (List.nodup_cons.mp hl.chain.nodup).1
  have hmem : ∀ b, b + 4 ∈ ((t.buftab poolid).bpnext + 4) :: t.inUse ↔
      b = (t.buftab poolid).bpnext ∨ b + 4 ∈ t.inUse := by
    intro b
    rw [List.mem_cons, Nat.add_right_cancel_iff]
  refine h.change (l := rest) hpool ⟨rfl, rfl, rfl, rfl, ?_, ?_, ?_⟩
    (List.nodup_cons.mpr ⟨hfree, h.kept.once⟩) ?_ ⟨hl.chain.2.2.other hnodup, ?_, ?_⟩ h.waiting
  · exact fun b hb' => upd_of_ne (ne_of_mem_of_not_mem hb hb').symm
  · exact fun b hb' => (hmem b).trans (or_iff_right (ne_of_mem_of_not_mem hb hb').symm)
  · intro a ha
    rcases List.mem_cons.mp ha with rfl | ha
    · exact Or.inr ⟨_, hb, rfl⟩
    · exact Or.inl ha
  · intro b hbuffer hin
    dsimp only
    rw [upd_apply]
    split
    · exact hpool.uint32_eq h
    · rename_i hne
      exact h.number hpool hbuffer (((hmem b).mp hin).resolve_left hne)
  · intro b
    rw [hmem, not_or]
    have hcons := hl.mem_iff b
    rw [List.mem_cons] at hcons
    constructor
    · intro hrest
      obtain ⟨hbuffer, hnot⟩ := hcons.mp (Or.inr hrest)
      exact ⟨hbuffer, ne_of_mem_of_not_mem hrest hnodup, hnot⟩
    · rintro ⟨hbuffer, hne, hnot⟩
      exact (hcons.mpr ⟨hbuffer, hnot⟩).resolve_left hne
  · have hlen := hl.units
    rw [List.length_cons] at hlen
    dsimp only
    omega

/-!
## Waiting
-/

/-- A process that waits takes nothing. -/
theorem Sound.wait (h : t.Sound) (hpool : t.Valid poolid)
    (hT : T.units = (t.buftab poolid).bpsem.units) (pid : Int) :
    { t.setPool poolid { t.buftab poolid with bpsem := T } with
      waiting := upd t.waiting pid (some poolid) }.Sound := by
  obtain ⟨l, hl⟩ := h.kept.free poolid hpool
  refine h.change (l := l) hpool ⟨rfl, rfl, rfl, rfl, fun _ _ => rfl, fun _ _ => Iff.rfl,
    fun _ => Or.inl⟩ h.kept.once (fun b hb hin => h.number hpool hb hin)
    ⟨hl.chain, hl.mem_iff, hl.units.trans hT.symm⟩ ?_
  intro q poolid' hq
  change upd t.waiting pid (some poolid) q = some poolid' at hq
  rw [upd_apply] at hq
  split at hq
  · cases hq
    exact hpool
  · exact h.waiting q poolid' hq

theorem Sound.setWaiting (h : t.Sound) (pid : Int) :
    { t with waiting := upd t.waiting pid none }.Sound := by
  refine h.congr rfl rfl rfl (fun _ _ => ⟨rfl, fun _ _ => rfl⟩) ?_
  intro q poolid hq
  change upd t.waiting pid none q = some poolid at hq
  rw [upd_apply] at hq
  split at hq
  · cases hq
  · exact h.waiting q poolid hq

/-!
## Freeing
-/

/-- {lit}`freebuf` finds the pool that the buffer is from. -/
theorem Sound.freebuf_eq (h : t.Sound) (ha : a ∈ t.inUse) :
    ∃ poolid, t.Valid poolid ∧ ∃ b ∈ t.buffers poolid, a = b + 4 ∧
      t.freebuf a = { t.setPool poolid { t.buftab poolid with
          bpnext := b, bpsem := (t.buftab poolid).bpsem.signal 1 } with
        word := upd t.word b (t.buftab poolid).bpnext
        inUse := t.inUse.erase a } := by
  obtain ⟨poolid, hpool, b, hb, rfl, hnumber⟩ := h.kept.used a ha
  refine ⟨poolid, hpool, b, hb, rfl, ?_⟩
  have hvalid : ¬(poolid < 0 ∨ t.nbpools ≤ poolid) := by
    have h0 := hpool.1
    have hlt := hpool.2
    omega
  unfold freebuf
  rw [h.placed.uint32_sub hpool hb]
  dsimp only
  rw [hnumber, hpool.int32_eq h, if_neg hvalid]

theorem Sound.freebuf (h : t.Sound) (ha : a ∈ t.inUse) : (t.freebuf a).Sound := by
  obtain ⟨poolid, hpool, b, hb, rfl, heq⟩ := h.freebuf_eq ha
  rw [heq]
  obtain ⟨l, hl⟩ := h.kept.free poolid hpool
  have hmem : ∀ b', b' + 4 ∈ t.inUse.erase (b + 4) ↔ b' ≠ b ∧ b' + 4 ∈ t.inUse := by
    intro b'
    have hne : b' + 4 ≠ b + 4 ↔ b' ≠ b := by omega
    rw [h.kept.once.mem_erase_iff, hne]
  have hnull : b ≠ 0 := by
    have hplace := h.placed.place poolid hpool b hb
    omega
  refine h.change (l := b :: l) hpool ⟨rfl, rfl, rfl, rfl, ?_, ?_, ?_⟩ (h.kept.once.erase _) ?_
    ⟨?_, ?_, ?_⟩ h.waiting
  · exact fun b' hb' => upd_of_ne (ne_of_mem_of_not_mem hb hb').symm
  · exact fun b' hb' => (hmem b').trans (and_iff_right (ne_of_mem_of_not_mem hb hb').symm)
  · exact fun _ ha' => Or.inl (List.mem_of_mem_erase ha')
  · intro b' hb' hin
    obtain ⟨hne, hold⟩ := (hmem b').mp hin
    exact (upd_of_ne hne).trans (h.number hpool hb' hold)
  · exact hl.chain.push (fun hbl => ((hl.mem_iff b).mp hbl).2 ha) hnull
  · intro b'
    change _ ↔ b' ∈ t.buffers poolid ∧ ¬b' + 4 ∈ t.inUse.erase (b + 4)
    rw [List.mem_cons, hl.mem_iff, hmem]
    by_cases hsame : b' = b
    · simp [hsame, hb]
    · simp [hsame]
  · dsimp only
    rw [List.length_cons, Turnstile.units_signal, ← hl.units]
    omega

/-!
## New pools
-/

/-- The loop of {lit}`mkbufpool` makes a chain of the buffers. -/
theorem linkBuffers_chain {size n : Nat} (word : Nat → Nat) (hpos : 0 < b) (hsize : 0 < size)
    (hend : b + (n + 1) * size ≤ 4294967296) :
    Chains.Chain (Pools.linkBuffers size n b word) 0 b (Chains.blocks size b (n + 1)) ∧
      ∀ x, x ∉ Chains.blocks size b (n + 1) → Pools.linkBuffers size n b word x = word x := by
  induction n generalizing b word with
  | zero =>
      constructor
      · refine ⟨rfl, by omega, ?_⟩
        change upd word b 0 b = 0
        exact upd_self
      · intro x hx
        exact upd_of_ne fun hxb => hx (by rw [hxb]; exact List.mem_singleton_self b)
  | succ n ih =>
      have hlen : (n + 1 + 1) * size = (n + 1) * size + size := Nat.succ_mul _ _
      have hmore : size ≤ (n + 1) * size := Nat.le_mul_of_pos_left size (Nat.succ_pos n)
      have hnext : uint32 (b + size) = b + size := by
        unfold uint32
        omega
      unfold Pools.linkBuffers
      rw [hnext]
      obtain ⟨hchain, hsame⟩ := ih (upd word b (b + size)) (Nat.add_pos_left hpos size)
        (by omega)
      have hb : b ∉ Chains.blocks size (b + size) (n + 1) := by
        intro hmem
        have hle := (Chains.blocks_within hmem).1
        omega
      constructor
      · refine ⟨rfl, by omega, ?_⟩
        rw [hsame b hb, upd_self]
        exact hchain
      · intro x hx
        change x ∉ b :: Chains.blocks size (b + size) (n + 1) at hx
        rw [List.mem_cons, not_or] at hx
        rw [hsame x hx.2, upd_of_ne hx.1]

/-- The entry behind the last pool is looked at by nobody. -/
theorem Sound.setPool (h : t.Sound) (e : Bufpool) : (t.setPool t.nbpools e).Sound :=
  h.congr rfl rfl rfl
    (fun _ hpool => ⟨upd_of_ne (Int.ne_of_lt hpool.2), fun _ _ => rfl⟩) h.waiting

/-- A pool with some buffers in new memory is added. -/
def addPool (t : BufferPools) (size n b : Nat) : BufferPools :=
  { t.setPool t.nbpools { bpnext := b, bpsem := Turnstile.idle (n + 1), bpsize := size } with
    nbpools := t.nbpools + 1
    word := Pools.linkBuffers (size + 4) n b t.word
    buffers := upd t.buffers t.nbpools (Chains.blocks (size + 4) b (n + 1)) }

/-- The memory of a new pool is as large as the buffers need, and new. -/
structure NewMemory (t : BufferPools) (size n b : Nat) : Prop where
  pos : 0 < b
  size_pos : 0 < size
  bound : b + (n + 1) * (size + 4) ≤ 4294967296
  apart : ∀ poolid, t.Valid poolid → ∀ b' ∈ t.buffers poolid,
    b' + 4 + (t.buftab poolid).bpsize ≤ b ∨ b + (n + 1) * (size + 4) ≤ b'

theorem NewMemory.not_mem {size n : Nat} (hnew : t.NewMemory size n b) (hpool : t.Valid poolid)
    (hb' : b' ∈ t.buffers poolid) : b' ∉ Chains.blocks (size + 4) b (n + 1) := by
  intro hmem
  have hwithin := Chains.blocks_within hmem
  have hapart := hnew.apart poolid hpool b' hb'
  omega

/-- A pool is the new one or one of the others. -/
theorem addPool_cases {size n : Nat} (hpool : (t.addPool size n b).Valid poolid) :
    (poolid = t.nbpools ∧ (t.addPool size n b).buffers poolid =
        Chains.blocks (size + 4) b (n + 1) ∧
      (t.addPool size n b).buftab poolid =
        { bpnext := b, bpsem := Turnstile.idle (n + 1), bpsize := size }) ∨
    (t.Valid poolid ∧ (t.addPool size n b).buffers poolid = t.buffers poolid ∧
      (t.addPool size n b).buftab poolid = t.buftab poolid) := by
  by_cases hne : poolid = t.nbpools
  · subst hne
    exact Or.inl ⟨rfl, upd_self, upd_self⟩
  · have hlt : poolid < t.nbpools + 1 := hpool.2
    exact Or.inr ⟨⟨hpool.1, by omega⟩, upd_of_ne hne, upd_of_ne hne⟩

theorem Placed.addPool {size n : Nat} (h : t.Placed) (hnew : t.NewMemory size n b) :
    (t.addPool size n b).Placed := by
  have hpos := hnew.pos
  have hsize := hnew.size_pos
  have hbound := hnew.bound
  constructor
  · intro poolid hpool b' hb'
    rcases addPool_cases hpool with ⟨-, hbuffers, hentry⟩ | ⟨hold, hbuffers, hentry⟩
    · rw [hbuffers] at hb'
      have hwithin := Chains.blocks_within hb'
      rw [hentry]
      dsimp only
      omega
    · rw [hbuffers] at hb'
      rw [hentry]
      exact h.place poolid hold b' hb'
  · intro poolid poolid' hpool hpool' b₁ hb₁ b₂ hb₂ hne
    rcases addPool_cases hpool with ⟨hp, hbuffers, hentry⟩ | ⟨hold, hbuffers, hentry⟩
    · rw [hbuffers] at hb₁
      rw [hentry]
      rcases addPool_cases hpool' with ⟨hp', hbuffers', hentry'⟩ | ⟨hold', hbuffers', hentry'⟩
      · rw [hbuffers'] at hb₂
        rw [hentry']
        have hdiffer : b₁ ≠ b₂ := hne.resolve_right fun hpools => hpools (hp.trans hp'.symm)
        have hapart := Chains.blocks_apart hb₁ hb₂ hdiffer
        dsimp only
        omega
      · rw [hbuffers'] at hb₂
        rw [hentry']
        have hwithin := Chains.blocks_within hb₁
        have hapart := hnew.apart poolid' hold' b₂ hb₂
        dsimp only
        omega
    · rw [hbuffers] at hb₁
      rw [hentry]
      rcases addPool_cases hpool' with ⟨hp', hbuffers', hentry'⟩ | ⟨hold', hbuffers', hentry'⟩
      · rw [hbuffers'] at hb₂
        rw [hentry']
        have hwithin := Chains.blocks_within hb₂
        have hapart := hnew.apart poolid hold b₁ hb₁
        dsimp only
        omega
      · rw [hbuffers'] at hb₂
        rw [hentry']
        exact h.apart poolid poolid' hold hold' b₁ hb₁ b₂ hb₂ hne

theorem Sound.addPool {size n : Nat} (h : t.Sound) (hroom : t.nbpools < NBPOOLS)
    (hnew : t.NewMemory size n b) : (t.addPool size n b).Sound := by
  have hsize : 0 < size + 4 := Nat.add_pos_right size (by decide)
  obtain ⟨hchain, hsame⟩ := linkBuffers_chain t.word hnew.pos hsize hnew.bound
  have hold : ∀ poolid, t.Valid poolid → (t.addPool size n b).Valid poolid := by
    intro poolid hpool
    have hlt := hpool.2
    exact ⟨hpool.1, by change poolid < t.nbpools + 1; omega⟩
  have hbuffers : ∀ poolid, t.Valid poolid →
      (t.addPool size n b).buffers poolid = t.buffers poolid := by
    intro poolid hpool
    exact upd_of_ne (Int.ne_of_lt hpool.2)
  constructor
  · constructor
    · exact h.kept.once
    · intro a ha
      obtain ⟨poolid, hpool, b', hb', heq, hnumber⟩ := h.kept.used a ha
      refine ⟨poolid, hold poolid hpool, b', ?_, heq, ?_⟩
      · rw [hbuffers poolid hpool]
        exact hb'
      · exact (hsame b' (hnew.not_mem hpool hb')).trans hnumber
    · intro poolid hpool
      rcases addPool_cases hpool with ⟨-, hblocks, hentry⟩ | ⟨hpool', hblocks, hentry⟩
      · refine ⟨Chains.blocks (size + 4) b (n + 1), ?_, ?_, ?_⟩
        · rw [hentry]
          exact hchain
        · intro b'
          rw [hblocks]
          constructor
          · intro hmem
            refine ⟨hmem, ?_⟩
            intro hused
            obtain ⟨poolid', hpool', b₀, hb₀, heq, -⟩ := h.kept.used _ hused
            have hb' : b' = b₀ := by omega
            rw [hb'] at hmem
            exact hnew.not_mem hpool' hb₀ hmem
          · exact fun hmem => hmem.1
        · rw [hentry, Chains.length_blocks, Turnstile.units_idle]
      · obtain ⟨l, hl⟩ := h.kept.free poolid hpool'
        refine ⟨l, ?_, ?_, ?_⟩
        · rw [hentry]
          apply hl.chain.congr
          intro x hx
          exact hsame x (hnew.not_mem hpool' ((hl.mem_iff x).mp hx).1)
        · rw [hblocks]
          exact hl.mem_iff
        · rw [hentry]
          exact hl.units
  · exact h.placed.addPool hnew
  · have hn := h.nbpools
    change 0 ≤ t.nbpools + 1 ∧ t.nbpools + 1 ≤ NBPOOLS
    omega
  · intro pid poolid hpid
    exact hold poolid (h.waiting pid poolid hpid)

theorem mkbufpool_cases {bufsiz numbufs : Int} {buf : Option Nat} {sem : Bool}
    (hproper : t.Proper (.mkbufpool bufsiz numbufs buf sem)) :
    t.mkbufpool bufsiz numbufs buf sem = t ∨
    (∃ e, t.mkbufpool bufsiz numbufs buf sem = t.setPool t.nbpools e) ∨
    ∃ size n b, t.nbpools < NBPOOLS ∧ t.NewMemory size n b ∧
      t.mkbufpool bufsiz numbufs buf sem = t.addPool size n b := by
  unfold mkbufpool
  split
  · exact Or.inl rfl
  · rename_i hargs
    unfold BP_MINB BP_MAXB BP_MAXN at hargs
    cases buf with
    | none => exact Or.inl rfl
    | some b =>
        apply Or.inr
        cases sem with
        | false => exact Or.inl ⟨_, rfl⟩
        | true =>
            apply Or.inr
            have hbig : uint32 ((bufsiz + 3) / 4 * 4 + 4) = uint32 ((bufsiz + 3) / 4 * 4) + 4 := by
              unfold uint32
              omega
            have hcount : numbufs.toNat = (numbufs - 1).toNat + 1 := by omega
            have hsize : 0 < uint32 ((bufsiz + 3) / 4 * 4) := by
              unfold uint32
              omega
            refine ⟨uint32 ((bufsiz + 3) / 4 * 4), (numbufs - 1).toNat, b, by omega, ?_, ?_⟩
            · obtain ⟨hpos, hbound, hapart⟩ := hproper
              rw [hbig, hcount] at hbound hapart
              exact ⟨hpos, hsize, hbound, hapart⟩
            · unfold addPool
              simp only [if_true, hbig, hcount]

/-!
## Steps
-/

theorem getbuf_cases (t : BufferPools) (pid poolid : Int) :
    (¬t.Valid poolid ∧ t.getbuf pid poolid = t) ∨
    (t.Valid poolid ∧ (t.buftab poolid).bpsem.Open ∧
      t.getbuf pid poolid = t.pass poolid ((t.buftab poolid).bpsem.enter pid)) ∨
    (t.Valid poolid ∧ ¬(t.buftab poolid).bpsem.Open ∧ t.getbuf pid poolid =
      { t.setPool poolid { t.buftab poolid with
          bpsem := (t.buftab poolid).bpsem.enter pid } with
        waiting := upd t.waiting pid (some poolid) }) := by
  unfold getbuf
  split
  · rename_i hargs
    refine Or.inl ⟨?_, rfl⟩
    rintro ⟨h0, hlt⟩
    omega
  · rename_i hargs
    have hpool : t.Valid poolid := ⟨by omega, by omega⟩
    dsimp only
    split
    · rename_i hopen
      exact Or.inr (Or.inl ⟨hpool, hopen, rfl⟩)
    · rename_i hclosed
      exact Or.inr (Or.inr ⟨hpool, hclosed, rfl⟩)

theorem units_pos_of_open (h : T.Open) : 0 < T.units := by
  rw [Turnstile.units_eq]
  exact Turnstile.unitsOf_pos_of_open h

theorem units_pos_of_granted (h : pid ∈ T.granted) : 0 < T.units := by
  rw [Turnstile.units_eq]
  exact Turnstile.unitsOf_pos_of_granted (fun _ _ => rfl) h rfl

theorem Sound.of_init (h : Init t) : t.Sound := by
  have hnone : ∀ poolid, ¬t.Valid poolid := by
    rintro poolid ⟨h0, hlt⟩
    rw [h.nbpools] at hlt
    omega
  constructor
  · constructor
    · rw [h.inUse]
      exact List.nodup_nil
    · intro a ha
      rw [h.inUse] at ha
      cases ha
    · exact fun poolid hpool => absurd hpool (hnone poolid)
  · constructor
    · exact fun poolid hpool => absurd hpool (hnone poolid)
    · exact fun poolid _ hpool => absurd hpool (hnone poolid)
  · rw [h.nbpools]
    decide
  · intro pid poolid hpid
    rw [h.waiting] at hpid
    cases hpid

/-!
## What the callers get
-/

/-- A process that need not wait, or was released, gets a buffer of the pool that is not in use,
and {lit}`freebuf` takes one back. -/
def Gives (t : BufferPools) : BufferLabel → BufferPools → Prop
  | .getbuf pid poolid, t' => t.Valid poolid →
      if (t.buftab poolid).bpsem.Open then t.HandsOut poolid t'
      else t'.inUse = t.inUse ∧ t'.waiting pid = some poolid
  | .resume pid, t' => ∀ poolid, t.waiting pid = some poolid → t.HandsOut poolid t'
  | .freebuf bufaddr, t' => t'.inUse = t.inUse.erase bufaddr
  | _, t' => t'.inUse = t.inUse

/-- But for a store, only the first words of buffers are written. -/
def LeavesData (t : BufferPools) (label : BufferLabel) (t' : BufferPools) : Prop :=
  (∀ addr value, label ≠ .store addr value) → ∀ addr,
    (∀ poolid, t'.Valid poolid → ∀ b ∈ t'.buffers poolid, addr ≠ b) → t'.word addr = t.word addr

/-- A step keeps the pools sound. -/
def Keeps (t : BufferPools) (label : BufferLabel) (t' : BufferPools) : Prop :=
  t'.Sound ∧ t.Gives label t' ∧ t.LeavesData label t'

theorem Sound.mkbufpool {bufsiz numbufs : Int} {buf : Option Nat} {sem : Bool} (h : t.Sound)
    (hproper : t.Proper (.mkbufpool bufsiz numbufs buf sem)) :
    t.Keeps (.mkbufpool bufsiz numbufs buf sem) (t.mkbufpool bufsiz numbufs buf sem) := by
  rcases mkbufpool_cases hproper with heq | ⟨e, heq⟩ | ⟨size, n, b, hroom, hnew, heq⟩
  · rw [heq]
    exact ⟨h, rfl, fun _ _ _ => rfl⟩
  · rw [heq]
    exact ⟨h.setPool e, rfl, fun _ _ _ => rfl⟩
  · rw [heq]
    refine ⟨h.addPool hroom hnew, rfl, fun _ addr hfirst => ?_⟩
    have hsize : 0 < size + 4 := Nat.add_pos_right size (by decide)
    have hpool : (t.addPool size n b).Valid t.nbpools :=
      ⟨h.nbpools.1, by change t.nbpools < t.nbpools + 1; omega⟩
    apply (linkBuffers_chain t.word hnew.pos hsize hnew.bound).2
    intro hmem
    refine hfirst t.nbpools hpool addr ?_ rfl
    change addr ∈ upd t.buffers t.nbpools _ t.nbpools
    rw [upd_self]
    exact hmem

theorem Sound.keeps_pass (h : t.Sound) (hpool : t.Valid poolid)
    (hunits : 0 < (t.buftab poolid).bpsem.units)
    (hT : T.units = (t.buftab poolid).bpsem.units - 1) :
    (t.pass poolid T).Sound ∧ t.HandsOut poolid (t.pass poolid T) ∧
      t.LeavesData label (t.pass poolid T) := by
  have hands := h.hands_out (T := T) hpool hunits
  refine ⟨h.pass hpool hunits hT, hands, fun _ addr hfirst => ?_⟩
  obtain ⟨b, hb, -, -, hword⟩ := hands
  rw [hword]
  exact upd_of_ne (hfirst poolid hpool b hb)

theorem Sound.step (h : t.Sound) (hproper : t.Proper label) (hs : t.step label = some t') :
    t.Keeps label t' := by
  cases label with
  | mkbufpool bufsiz numbufs buf sem =>
      cases hs
      exact h.mkbufpool hproper
  | getbuf pid poolid =>
      simp only [BufferPools.step] at hs
      split at hs
      · cases hs
        rcases t.getbuf_cases pid poolid with ⟨hnot, heq⟩ | ⟨hpool, hopen, heq⟩ |
          ⟨hpool, hclosed, heq⟩
        · rw [heq]
          exact ⟨h, fun hpool => absurd hpool hnot, fun _ _ _ => rfl⟩
        · rw [heq]
          obtain ⟨hsound, hands, hleaves⟩ := h.keeps_pass hpool (units_pos_of_open hopen)
            (Turnstile.units_enter_open hopen)
          refine ⟨hsound, fun _ => ?_, hleaves⟩
          rw [if_pos hopen]
          exact hands
        · rw [heq]
          refine ⟨h.wait hpool (Turnstile.units_enter_closed hclosed) pid, fun _ => ?_,
            fun _ _ _ => rfl⟩
          rw [if_neg hclosed]
          exact ⟨rfl, upd_self⟩
      · cases hs
  | resume pid =>
      simp only [BufferPools.step] at hs
      split at hs
      · cases hs
      · rename_i poolid hwaits
        split at hs
        · rename_i hgranted
          cases hs
          obtain ⟨hsound, hands, hleaves⟩ := (h.setWaiting pid).keeps_pass
            (h.waiting pid poolid hwaits) (units_pos_of_granted hgranted)
            (Turnstile.units_resume hgranted)
          refine ⟨hsound, fun poolid' hwaits' => ?_, hleaves⟩
          cases hwaits.symm.trans hwaits'
          exact hands
        · cases hs
  | freebuf bufaddr =>
      obtain rfl : t.freebuf bufaddr = t' := Option.some.inj hs
      obtain ⟨poolid, hpool, b, hb, -, heq⟩ := h.freebuf_eq hproper
      refine ⟨h.freebuf hproper, congrArg inUse heq, fun _ addr hfirst => ?_⟩
      rw [heq] at hfirst ⊢
      exact upd_of_ne (hfirst poolid hpool b hb)
  | store addr value =>
      cases hs
      refine ⟨h.congr rfl rfl rfl ?_ h.waiting, rfl, fun hlabel => absurd rfl (hlabel addr value)⟩
      intro poolid hpool
      refine ⟨rfl, fun b hb => ?_⟩
      exact upd_of_ne (ne_first ((hproper poolid hpool b hb).imp_right And.right))

end

/-- In every run, the buffers of each pool that are not in use are those on its list, each once,
as many as the semaphore counts and has promised; every process that goes on gets a buffer that
nobody uses, and no call writes more than the first words of buffers, which lie apart. -/
theorem buffers_kept {t : BufferPools} (h : Runs.Reach step Proper Init t) :
    t.Kept ∧ t.Placed ∧ ∀ label t', t.Proper label → t.step label = some t' →
      t.Gives label t' ∧ t.LeavesData label t' := by
  have hsound : t.Sound := by
    apply h.invariant
    · exact fun _ hinit => Sound.of_init hinit
    · exact fun _ _ _ _ hI hproper hs => (hI.step hproper hs).1
  exact ⟨hsound.kept, hsound.placed, fun label t' hproper hs => (hsound.step hproper hs).2⟩

/-!
## An example
-/

theorem forall_valid_iff {t : BufferPools} {P : Int → Prop} :
    (∀ poolid, t.Valid poolid → P poolid) ↔ ∀ i < t.nbpools.toNat, P i := by
  constructor
  · intro h i hi
    exact h i ⟨by omega, by omega⟩
  · rintro h poolid ⟨h0, hlt⟩
    have hcast : ((poolid.toNat : Nat) : Int) = poolid := Int.toNat_of_nonneg h0
    rw [← hcast]
    exact h poolid.toNat (by omega)

instance (t : BufferPools) (poolid : Int) (b addr : Nat) : Decidable (t.Outside poolid b addr) :=
  inferInstanceAs (Decidable (_ ∨ _))

instance (t : BufferPools) (poolid : Int) (b addr : Nat) : Decidable (t.InData poolid b addr) :=
  inferInstanceAs (Decidable (_ ∧ _))

instance (t : BufferPools) (label : BufferLabel) : Decidable (t.Proper label) :=
  match label with
  | .mkbufpool _ _ none _ | .getbuf _ _ | .resume _ => inferInstanceAs (Decidable True)
  | .mkbufpool bufsiz numbufs (some buf) _ =>
      have : Decidable (∀ poolid, t.Valid poolid → ∀ b ∈ t.buffers poolid,
          b + 4 + (t.buftab poolid).bpsize ≤ buf ∨
            buf + numbufs.toNat * uint32 ((bufsiz + 3) / 4 * 4 + 4) ≤ b) :=
        decidable_of_iff' _ forall_valid_iff
      inferInstanceAs (Decidable (_ ∧ _ ∧ _))
  | .freebuf bufaddr => inferInstanceAs (Decidable (bufaddr ∈ t.inUse))
  | .store _ _ => decidable_of_iff' _ forall_valid_iff

/-- No pools yet. -/
def noPools : BufferPools where
  word := fun _ => 7
  buftab := fun _ => { bpnext := 0, bpsem := Turnstile.idle 0, bpsize := 0 }
  nbpools := 0
  waiting := fun _ => none
  inUse := []
  buffers := fun _ => []

theorem init_noPools : noPools.Init := ⟨rfl, fun _ => rfl, rfl⟩

/-- A process waits for one of two buffers, and gets the one that is freed. -/
theorem buffers_kept_two : ∃ t : BufferPools,
    (t.inUse = [4100, 4112] ∧ t.waiting 3 = none) ∧ t.Kept := by
  obtain ⟨t, ht, huse⟩ := Runs.exists_reach_of_follow step Proper init_noPools
    [.mkbufpool 8 2 (some 4096) true, .getbuf 1 0, .getbuf 2 0, .store 4104 9, .getbuf 3 0,
      .freebuf 4100, .resume 3]
    (fun t => t.inUse = [4100, 4112] ∧ t.waiting 3 = none) (by decide +kernel)
  exact ⟨t, huse, (buffers_kept ht).1⟩

end BufferPools
end BbbXinu
