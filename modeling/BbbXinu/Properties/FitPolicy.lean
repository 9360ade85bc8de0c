import BbbXinu.Invariant.FitScans
import BbbXinu.Properties.ShortBlocks

/-!
# Which block is taken

{lit}`getmem` takes the lowest block in first fit and the smallest in best fit.
{lit}`getstk` goes on after the first block from the back that is large enough, so
that first fit gives it the lowest block as well.
-/

namespace BbbXinu

open LinkedLists Choices

/-- The number of bytes in whole units of {lit}`MIN_BLOCKSIZE`, before it is cut to
32 bits. -/
def inUnits (nbytes : Nat) : Nat := (nbytes + (MIN_BLOCKSIZE - 1)) / MIN_BLOCKSIZE * MIN_BLOCKSIZE

/-- The block is large enough for a request. -/
def LargeEnough (nbytes : Nat) (b : Span) : Prop := inUnits nbytes ≤ b.size

namespace Mem

/-- {lit}`getmem` takes the start of the block. -/
def GetmemTakes (m : Mem) (alloc nbytes : Nat) (b : Span) : Prop :=
  ∃ m', m.getmem alloc nbytes = (some b.start, m') ∧
    m.Takes 0 m.freeList { start := b.start, size := inUnits nbytes } m' m'.freeList

/-- {lit}`getstk` takes the end of the block and returns its last word. -/
def GetstkTakes (m : Mem) (alloc nbytes : Nat) (b : Span) : Prop :=
  ∃ m', m.getstk alloc nbytes = (some (b.stop - 4), m') ∧
    m.Takes 0 m.freeList { start := b.stop - inUnits nbytes, size := inUnits nbytes } m' m'.freeList

/-- In first fit {lit}`getmem` takes the lowest block that is large enough and
{lit}`getstk` the highest, in best fit both take a smallest, and they fail only
where no block is large enough. -/
structure FitPolicy (m : Mem) (alloc nbytes : Nat) : Prop where
  getmem_first : alloc = MEMALLOC_FIRSTFIT → (∃ b ∈ m.freeList, LargeEnough nbytes b) →
    ∃ b, Choice (LargeEnough nbytes) Lower m.freeList b ∧ m.GetmemTakes alloc nbytes b
  getstk_first : alloc = MEMALLOC_FIRSTFIT → (∃ b ∈ m.freeList, LargeEnough nbytes b) →
    ∃ b, Choice (LargeEnough nbytes) Higher m.freeList b ∧ m.GetstkTakes alloc nbytes b
  getmem_best : alloc = MEMALLOC_BESTFIT → (∃ b ∈ m.freeList, LargeEnough nbytes b) →
    ∃ b, Choice (LargeEnough nbytes) Smaller m.freeList b ∧ m.GetmemTakes alloc nbytes b
  getstk_best : alloc = MEMALLOC_BESTFIT → (∃ b ∈ m.freeList, LargeEnough nbytes b) →
    ∃ b, Choice (LargeEnough nbytes) Smaller m.freeList b ∧ m.GetstkTakes alloc nbytes b
  getmem_fails : (m.getmem alloc nbytes).1 = none ↔ ∀ b ∈ m.freeList, ¬ LargeEnough nbytes b
  getstk_fails : (m.getstk alloc nbytes).1 = none ↔ ∀ b ∈ m.freeList, ¬ LargeEnough nbytes b

/-- How each routine chooses: {lit}`getstk` chooses as {lit}`getmem` does. -/
def chosenBy (alloc : Nat) : Span → Span → Prop :=
  if alloc = MEMALLOC_FIRSTFIT then Lower else Smaller

end Mem

section

variable {m m' : Mem} {alloc n a : Nat} {b c : Span} {L : List Span}

theorem inUnits_eq (h : n ≤ 4294967280) : inUnits n = roundmb n := by
  unfold inUnits roundmb uint32 MIN_BLOCKSIZE
  omega

/-!
## The block that is chosen
-/

theorem getmem_found (hz : n ≠ 0) (heq : m.getmem alloc n = (some a, m')) :
    a = getmemFound (m.getmemScan alloc (roundmb n) Mem.listFuel m.memlist
      (m.block m.memlist).mnext 0) := by
  unfold Mem.getmem at heq
  rw [if_neg hz] at heq
  dsimp only at heq
  generalize m.getmemScan alloc (roundmb n) Mem.listFuel m.memlist (m.block m.memlist).mnext 0 = r
    at heq ⊢
  rcases r with ⟨exact, best⟩
  cases exact with
  | some p =>
      cases heq
      rfl
  | none =>
      dsimp only at heq
      by_cases hbest : best = 0
      · rw [if_neg (not_not.mpr hbest)] at heq
        cases heq
      · rw [if_pos hbest] at heq
        cases heq
        rfl

theorem getmem_chosen (h : m.FreeList 0 L) (alloc n : Nat) : ∃ o,
    Sought (fun c => roundmb n ≤ c.size) (Mem.chosenBy alloc) L o ∧
      getmemFound (m.getmemScan alloc (roundmb n) Mem.listFuel m.memlist
        (m.block m.memlist).mnext 0) = addressOf o := by
  have hfirst : headOr m.memlist (L.map Span.start) = (m.block m.memlist).mnext :=
    h.ring.next_eq_headOr.symm
  rw [← hfirst]
  unfold Mem.chosenBy
  by_cases halloc : alloc = MEMALLOC_FIRSTFIT
  · subst halloc
    rw [if_pos rfl]
    exact getmemScan_first (show m.FreeList 0 ([] ++ L) from h) Mem.listFuel h.length_le Sought.nil
  · rw [if_neg halloc]
    exact getmemScan_best (o := none) (show m.FreeList 0 ([] ++ L) from h) halloc Mem.listFuel
      h.length_le Sought.nil

theorem getstk_chosen (h : m.FreeList 0 L) (alloc n : Nat) : ∃ o,
    Sought (fun c => roundmb n ≤ c.size) (Mem.chosenBy alloc) L o ∧
      (m.getstkScan alloc (roundmb n) Mem.listFuel m.memlist
        (m.block m.memlist).mprev 0 0).1 = addressOf o := by
  have hlast : lastOr m.memlist (L.map Span.start) = (m.block m.memlist).mprev :=
    h.ring.prev_eq_lastOr.symm
  have hring : m.FreeList 0 (L ++ []) := by rwa [List.append_nil]
  rw [← hlast]
  unfold Mem.chosenBy
  by_cases halloc : alloc = MEMALLOC_FIRSTFIT
  · subst halloc
    rw [if_pos rfl]
    have hscan := getstkScan_first (n := roundmb n) (o := none) hring 0 Mem.listFuel h.length_le
      Sought.nil
    rwa [List.append_nil] at hscan
  · rw [if_neg halloc]
    have hscan := getstkScan_best (n := roundmb n) (o := none) hring halloc 0 Mem.listFuel
      h.length_le Sought.nil
    rwa [List.append_nil] at hscan

/-- {lit}`getmem` takes the chosen block. -/
theorem getmem_takes (h : m.FreeList 0 m.freeList) (alloc : Nat) (hpos : 0 < n) (hle : n ≤ 4294967280)
    (hex : ∃ b ∈ m.freeList, LargeEnough n b) :
    ∃ b, Choice (LargeEnough n) (Mem.chosenBy alloc) m.freeList b ∧ m.GetmemTakes alloc n b := by
  have hunits := inUnits_eq hle
  have hround := roundmb_pos hpos hle
  unfold LargeEnough at hex ⊢
  unfold Mem.GetmemTakes
  rw [hunits] at hex ⊢
  rcases getmem_ok h alloc (Or.inl hround) with ⟨a, m', L', heq, htakes⟩ | ⟨_, hsmall⟩
  · rcases getmem_chosen h alloc n with ⟨o, hsought, hfound⟩
    rw [← getmem_found (Nat.ne_of_gt hpos) heq] at hfound
    cases o with
    | none =>
        rcases hex with ⟨b, hb, hle⟩
        exact absurd hle (hsought b hb)
    | some b =>
        refine ⟨b, hsought, m', ?_, ?_⟩
        · rw [heq, hfound]
          rfl
        · rw [htakes.free.freeList_eq]
          rw [show b.start = a from hfound.symm]
          exact htakes
  · rcases hex with ⟨b, hb, hle⟩
    have hlt := (hsmall.resolve_left (Nat.ne_of_gt hpos)) b hb
    omega

theorem getstk_found (hz : n ≠ 0) (heq : m.getstk alloc n = (some a, m')) (hb : m.FreeList 0 L)
    (hmem : b ∈ L) (hfound : (m.getstkScan alloc (roundmb n) Mem.listFuel m.memlist
      (m.block m.memlist).mprev 0 0).1 = b.start) (hn : 16 ≤ roundmb n) (hle : roundmb n ≤ b.size) :
    a = b.stop - 4 := by
  have hsize := hb.size b hmem
  have hstop := hb.stop_le b hmem
  have hpos := hb.pos b hmem
  unfold Mem.getstk at heq
  rw [if_neg hz] at heq
  dsimp only at heq
  rw [hfound, if_neg (Nat.ne_of_gt hpos), hsize] at heq
  unfold Span.stop at hstop ⊢
  by_cases hexact : roundmb n = b.size
  · rw [if_pos hexact] at heq
    cases heq
    unfold uint32
    omega
  · rw [if_neg hexact] at heq
    have hlen : uint32 (b.size - roundmb n) = b.size - roundmb n := by
      unfold uint32
      omega
    have hread : ((m.setBlock b.start fun e =>
        { e with mlength := uint32 (e.mlength - roundmb n) }).block b.start).mlength =
        b.size - roundmb n := by
      rw [Mem.mlength_setLength, if_pos rfl, hsize, hlen]
    rw [hread] at heq
    cases heq
    unfold uint32
    omega

/-- {lit}`getstk` takes the chosen block. -/
theorem getstk_takes (h : m.FreeList 0 m.freeList) (alloc : Nat) (hpos : 0 < n) (hle : n ≤ 4294967280)
    (hex : ∃ b ∈ m.freeList, LargeEnough n b) :
    ∃ b, Choice (LargeEnough n) (Mem.chosenBy alloc) m.freeList b ∧ m.GetstkTakes alloc n b := by
  have hunits := inUnits_eq hle
  have hround := roundmb_pos hpos hle
  have hunit : 16 ≤ roundmb n := by
    unfold roundmb uint32 MIN_BLOCKSIZE at *
    omega
  unfold LargeEnough at hex ⊢
  unfold Mem.GetstkTakes
  rw [hunits] at hex ⊢
  rcases getstk_ok h alloc (Or.inl hround) with ⟨a, m', L', heq, htakes⟩ | ⟨_, hsmall⟩
  · rcases getstk_chosen h alloc n with ⟨o, hsought, hfound⟩
    cases o with
    | none =>
        rcases hex with ⟨b, hb, hle⟩
        exact absurd hle (hsought b hb)
    | some b =>
        have hword := getstk_found (Nat.ne_of_gt hpos) heq h hsought.mem hfound hunit hsought.pass
        have hbstop := h.stop_le b hsought.mem
        rcases htakes.within with ⟨c, hc, _, hhigh⟩
        have hcstop := h.stop_le c hc
        have hbsize : roundmb n ≤ b.size := hsought.pass
        have hstart : a = b.stop - roundmb n := by
          unfold uint32 at hword
          unfold Span.stop at *
          dsimp only at hhigh
          omega
        refine ⟨b, hsought, m', ?_, ?_⟩
        · rw [heq, hword]
        · rw [htakes.free.freeList_eq, ← hstart]
          exact htakes
  · rcases hex with ⟨b, hb, hle⟩
    have hlt := (hsmall.resolve_left (Nat.ne_of_gt hpos)) b hb
    omega

/-- Both fail exactly where no block is large enough. -/
theorem getmem_fails_iff (h : m.FreeList 0 m.freeList) (hpos : 0 < n) (hle : n ≤ 4294967280) :
    (m.getmem alloc n).1 = none ↔ ∀ b ∈ m.freeList, ¬ LargeEnough n b := by
  constructor
  · intro hnone b hb hlarge
    rcases getmem_takes h alloc hpos hle ⟨b, hb, hlarge⟩ with ⟨_, _, m', heq, _⟩
    rw [heq] at hnone
    cases hnone
  · intro hsmall
    rcases getmem_ok h alloc (Or.inl (roundmb_pos hpos hle)) with
      ⟨_, _, _, _, htakes⟩ | ⟨heq, _⟩
    · rcases htakes.within with ⟨b, hb, hlow, hhigh⟩
      apply absurd _ (hsmall b hb)
      unfold LargeEnough
      rw [inUnits_eq hle]
      unfold Span.stop at hhigh
      dsimp only at hlow hhigh
      omega
    · rw [heq]

theorem getstk_fails_iff (h : m.FreeList 0 m.freeList) (hpos : 0 < n) (hle : n ≤ 4294967280) :
    (m.getstk alloc n).1 = none ↔ ∀ b ∈ m.freeList, ¬ LargeEnough n b := by
  constructor
  · intro hnone b hb hlarge
    rcases getstk_takes h alloc hpos hle ⟨b, hb, hlarge⟩ with ⟨_, _, m', heq, _⟩
    rw [heq] at hnone
    cases hnone
  · intro hsmall
    rcases getstk_ok h alloc (Or.inl (roundmb_pos hpos hle)) with
      ⟨_, _, _, _, htakes⟩ | ⟨heq, _⟩
    · rcases htakes.within with ⟨b, hb, hlow, hhigh⟩
      apply absurd _ (hsmall b hb)
      unfold LargeEnough
      rw [inUnits_eq hle]
      unfold Span.stop at hhigh
      dsimp only at hlow hhigh
      omega
    · rw [heq]

/-!
## The policy
-/

/-- In a list without blocks nothing is taken. -/
theorem fitPolicy_nil (h : m.FreeList 0 m.freeList) (hnil : m.freeList = []) :
    m.FitPolicy alloc n := by
  have hnone : ¬ ∃ b ∈ m.freeList, LargeEnough n b := by
    rw [hnil]
    intro hex
    rcases hex with ⟨b, hb, _⟩
    cases hb
  have hsmall : ∀ b ∈ m.freeList, ¬ LargeEnough n b := fun b hb hlarge => hnone ⟨b, hb, hlarge⟩
  constructor
  · exact fun _ hex => absurd hex hnone
  · exact fun _ hex => absurd hex hnone
  · exact fun _ hex => absurd hex hnone
  · exact fun _ hex => absurd hex hnone
  · refine iff_of_true ?_ hsmall
    rcases getmem_ok h alloc (show 0 < roundmb n ∨ _ from Or.inr hnil) with
      ⟨_, _, _, _, htakes⟩ | ⟨heq, _⟩
    · exact absurd hnil htakes.ne_nil
    · rw [heq]
  · refine iff_of_true ?_ hsmall
    rcases getstk_ok h alloc (show 0 < roundmb n ∨ _ from Or.inr hnil) with
      ⟨_, _, _, _, htakes⟩ | ⟨heq, _⟩
    · exact absurd hnil htakes.ne_nil
    · rw [heq]

/-- In first fit there is at most one block to choose from. -/
def OneChoice (m : Mem) (alloc n : Nat) : Prop :=
  alloc = MEMALLOC_FIRSTFIT →
    ∀ b ∈ m.freeList, ∀ c ∈ m.freeList, LargeEnough n b → LargeEnough n c → b = c

theorem fitPolicy_of (h : m.FreeList 0 m.freeList) (hpos : 0 < n) (hle : n ≤ 4294967280)
    (hone : OneChoice m alloc n) : m.FitPolicy alloc n := by
  have hmem := fun hex => getmem_takes h alloc hpos hle hex
  have hstk := fun hex => getstk_takes h alloc hpos hle hex
  constructor
  · rintro rfl hex
    exact hmem hex
  · rintro rfl hex
    rcases hstk hex with ⟨b, hchoice, htakes⟩
    refine ⟨b, ⟨hchoice.mem, hchoice.pass, ?_⟩, htakes⟩
    intro c hc hlarge
    rw [hone rfl c hc b hchoice.mem hlarge hchoice.pass]
    exact Nat.le_refl _
  · rintro rfl hex
    exact hmem hex
  · rintro rfl hex
    exact hstk hex
  · exact getmem_fails_iff h hpos hle
  · exact getstk_fails_iff h hpos hle

/-- Both routines follow the policy if and only if nothing is free, or the request
can be rounded up and first fit leaves {lit}`getstk` no choice. -/
theorem fit_policy_iff (h : m.FreeList 0 m.freeList) (hlt : n < 4294967296) :
    m.FitPolicy alloc n ↔
      m.freeList = [] ∨ (0 < n ∧ n ≤ 4294967280 ∧ OneChoice m alloc n) := by
  constructor
  · intro hpolicy
    by_contra hnot
    rcases not_or.mp hnot with ⟨hne, hbad⟩
    rcases List.exists_mem_of_ne_nil _ hne with ⟨d, hd⟩
    have hpos : 0 < n := by
      by_contra hz
      have hzero := Nat.eq_zero_of_not_pos hz
      subst hzero
      exact hpolicy.getmem_fails.mp rfl d hd (Nat.zero_le _)
    have hle : n ≤ 4294967280 := by
      by_contra hlarge
      have hround := roundmb_eq_zero (Nat.lt_of_not_le hlarge) hlt
      rcases getmem_nothing h alloc (Nat.ne_of_gt hpos) hround hne with ⟨b, _, m', heq, _⟩
      have hnone := hpolicy.getmem_fails.mpr (by
        intro c hc hcl
        have hcstop := h.stop_le c hc
        have hcpos := h.pos c hc
        unfold LargeEnough inUnits MIN_BLOCKSIZE at hcl
        unfold Span.stop at hcstop
        omega)
      rw [heq] at hnone
      cases hnone
    apply hbad
    refine ⟨hpos, hle, ?_⟩
    rintro rfl
    have hsame : ∀ c ∈ m.freeList, LargeEnough n c → ∀ e ∈ m.freeList, LargeEnough n e →
        c.start ≤ e.start := by
      intro c hc hcl e he hel
      rcases hpolicy.getstk_first rfl ⟨c, hc, hcl⟩ with ⟨b, hhigh, m₁, heq₁, _⟩
      rcases getstk_takes h MEMALLOC_FIRSTFIT hpos hle ⟨c, hc, hcl⟩ with
        ⟨b', hlow, m₂, heq₂, _⟩
      rw [heq₁] at heq₂
      have hstop : b.stop - 4 = b'.stop - 4 := Option.some.inj (congrArg Prod.fst heq₂)
      have hbpos := hhigh.pass
      have hbpos' := hlow.pass
      have hunits : 16 ≤ inUnits n := by
        unfold inUnits MIN_BLOCKSIZE
        omega
      unfold LargeEnough at hbpos hbpos'
      have hbb : b = b' := by
        apply h.spaced.eq_of_stop hhigh.mem hlow.mem
        unfold Span.stop at *
        omega
      have h1 := hhigh.first c hc hcl
      have h2 := hlow.first e he hel
      rw [hbb] at h1
      exact Nat.le_trans h1 h2
    intro b hb c hc hbl hcl
    exact h.spaced.eq_of_start hb hc (Nat.le_antisymm (hsame b hb hbl c hc hcl)
      (hsame c hc hcl b hb hbl))
  · intro hcond
    rcases hcond with hnil | ⟨hpos, hle, hone⟩
    · exact fitPolicy_nil h hnil
    · exact fitPolicy_of h hpos hle hone

end

/-!
## One and two free blocks
-/

theorem fit_policy_single : sampleMem.FitPolicy MEMALLOC_FIRSTFIT 40 := by
  have hfree := sampleMem_free 0
  have hlist := hfree.freeList_eq
  rw [← hlist] at hfree
  apply (fit_policy_iff hfree (by decide)).mpr
  refine Or.inr ⟨by decide, by decide, ?_⟩
  intro _ b hb c hc _ _
  rw [hlist] at hb hc
  rw [List.mem_singleton.mp hb, List.mem_singleton.mp hc]

/-- Two free blocks with a block between them that is in use. -/
def splitMem : Mem where
  memlist := 0x1000
  minheap := 0x2000
  maxheap := 0x4000
  block := fun addr =>
    if addr = 0x1000 then { mnext := 0x2000, mlength := 0x1040, mprev := 0x3000 }
    else if addr = 0x2000 then { mnext := 0x3000, mlength := 64, mprev := 0x1000 }
    else { mnext := 0x1000, mlength := 0x1000, mprev := 0x2000 }

theorem splitMem_free :
    splitMem.FreeList 0 [{ start := 0x2000, size := 64 }, { start := 0x3000, size := 0x1000 }] where
  ring := ⟨rfl, rfl, rfl, rfl, rfl, rfl⟩
  size := by simp [splitMem]
  spaced := ⟨by simp, by simp [Span.stop]⟩
  pos := by simp
  stop_le := by simp [Span.stop]
  head := by simp [splitMem, mem_bytes, Span.stop]

/-- The stack comes from the lower block. -/
theorem fit_policy_split :
    ¬ ∀ (m : Mem) (alloc n : Nat), m.FreeList 0 m.freeList → n < 4294967296 →
      m.FitPolicy alloc n := by
  intro hall
  have hfree := splitMem_free
  have hlist := hfree.freeList_eq
  rw [← hlist] at hfree
  have hpolicy := hall splitMem MEMALLOC_FIRSTFIT 40 hfree (by decide)
  have hhigh : ({ start := 0x3000, size := 0x1000 } : Span) ∈ splitMem.freeList := by
    rw [hlist]
    simp
  have hlarge : LargeEnough 40 { start := 0x3000, size := 0x1000 } := by
    unfold LargeEnough
    decide
  rcases hpolicy.getstk_first rfl ⟨_, hhigh, hlarge⟩ with ⟨b, hchoice, m', heq, _⟩
  have hlow : (splitMem.getstk MEMALLOC_FIRSTFIT 40).1 = some 0x203C := by decide +kernel
  rw [heq] at hlow
  have hstart := hchoice.first _ hhigh hlarge
  have hword := Option.some.inj hlow
  unfold Higher at hstart
  unfold Span.stop at hword
  dsimp only at hstart
  omega

end BbbXinu
