import BbbXinu.Kernel.Ports
import BbbXinu.Lib.Searches
import BbbXinu.Properties.CreateFailure

/-!
# Creations that fail

{lit}`mkbufpool` takes the memory of a pool before its semaphore, and does not give it back
when there is no semaphore.  {lit}`ptcreate` does not look at what its two calls of
{lit}`semcreate` return.
-/

namespace BbbXinu

open Searches

namespace Xinu

def FreeSem (s : Xinu) (sem : Int) : Prop := (s.semtab sem).sstate = .free

instance (s : Xinu) : DecidablePred s.FreeSem := fun _ => inferInstanceAs (Decidable (_ = _))

/-- There is a free semaphore. -/
def SomeSem (s : Xinu) : Prop := ∃ sem, 0 ≤ sem ∧ sem < NSEM ∧ s.FreeSem sem

/-- The semaphore is valid and in use. -/
def SemUsed (s : Xinu) (sem : Int) : Prop :=
  ¬isbadsem sem ∧ (s.semtab sem).sstate = .used

/-- From {lit}`nextsem` on, the first two free semaphores. -/
structure FirstTwo (s : Xinu) (a b : Int) : Prop where
  first : Nearest NSEM s.FreeSem s.nextsem a
  second : Nearest NSEM (fun sem => sem ≠ a ∧ s.FreeSem sem) s.nextsem b

/-- What a successful {lit}`semcreate` does. -/
structure Took (s : Xinu) (count sem : Int) (s' : Xinu) : Prop where
  nearest : Nearest NSEM s.FreeSem s.nextsem sem
  nextsem : s'.nextsem = next NSEM sem
  semtab : s'.semtab = upd s.semtab sem { s.semtab sem with sstate := .used, scount := count }

/-- What a failing {lit}`semcreate` does not. -/
structure NoSem (s s' : Xinu) : Prop where
  none : ¬s.SomeSem
  mem : s'.mem = s.mem
  semtab : s'.semtab = s.semtab

end Xinu

namespace Xinu

section

variable {s s' s'' : Xinu} {sem a b count : Int}

theorem Took.semUsed (h : s.Took count sem s') : s'.SemUsed sem := by
  constructor
  · intro hbad
    have hnonneg := h.nearest.nonneg
    have hlt := h.nearest.lt
    unfold isbadsem at hbad
    omega
  · rw [h.semtab, upd_self]

theorem Took.semUsed_of (h : s.Took count sem s') (ha : s.SemUsed a) : s'.SemUsed a := by
  constructor
  · exact ha.1
  · rw [h.semtab, upd_apply]
    split
    · rfl
    · exact ha.2

theorem Took.freeSem_iff (h : s.Took count sem s') :
    s'.FreeSem a ↔ a ≠ sem ∧ s.FreeSem a := by
  unfold FreeSem
  rw [h.semtab]
  by_cases heq : a = sem
  · simp [heq]
  · simp [upd_of_ne heq, heq]

/-- Two calls of {lit}`semcreate` that succeed take the first two free semaphores. -/
theorem Took.firstTwo (h : s.Took count a s') (h' : s'.Took 0 b s'') : s.FirstTwo a b where
  first := h.nearest
  second := by
    have hnear := h'.nearest
    have hfree : s'.FreeSem = fun sem => sem ≠ a ∧ s.FreeSem sem := by
      funext sem
      exact propext h.freeSem_iff
    rw [h.nextsem, hfree] at hnear
    exact h.nearest.second hnear

theorem FirstTwo.unique {a' b' : Int} (h : s.FirstTwo a b) (h' : s.FirstTwo a' b') :
    a = a' ∧ b = b' := by
  have ha := h.first.unique h'.first
  subst ha
  exact ⟨rfl, h.second.unique h'.second⟩

end

end Xinu

namespace Pools

/-- The indices of the tables searched next are in their tables. -/
structure Ranged (t : Pools) : Prop where
  nextsem : 0 ≤ t.xinu.nextsem ∧ t.xinu.nextsem < NSEM
  ptnextid : 0 ≤ t.ptnextid ∧ t.ptnextid < NPORTS

/-- The free memory and the three tables are the same. -/
structure SameResources (t t' : Pools) : Prop where
  freeList : t'.xinu.mem.freeList = t.xinu.mem.freeList
  total : t'.xinu.mem.total = t.xinu.mem.total
  semtab : t'.xinu.semtab = t.xinu.semtab
  nbpools : t'.nbpools = t.nbpools
  buftab : t'.buftab = t.buftab
  porttab : t'.porttab = t.porttab

def FreePort (t : Pools) (ptnum : Int) : Prop := (t.porttab ptnum).ptstate = .free

instance (t : Pools) : DecidablePred t.FreePort := fun _ => inferInstanceAs (Decidable (_ = _))

/-- There is a free port. -/
def SomePort (t : Pools) : Prop := ∃ ptnum, 0 ≤ ptnum ∧ ptnum < NPORTS ∧ t.FreePort ptnum

/-- The bytes of a pool. -/
def poolBytes (bufsiz numbufs : Int) : Nat := uint32 (numbufs * ((bufsiz + 3) / 4 * 4 + 4))

/-- The arguments are in their ranges, and the pool table has room. -/
structure PoolArgs (t : Pools) (bufsiz numbufs : Int) : Prop where
  size : BP_MINB ≤ bufsiz ∧ bufsiz ≤ BP_MAXB
  number : 1 ≤ numbufs ∧ numbufs ≤ BP_MAXN
  room : t.nbpools < NBPOOLS

/-- The arguments and the pool table allow the pool, and there is memory for it. -/
structure PoolFits (t : Pools) (bufsiz numbufs : Int) : Prop where
  args : t.PoolArgs bufsiz numbufs
  memory : ∃ b ∈ t.xinu.mem.freeList, roundmb (poolBytes bufsiz numbufs) ≤ b.size

/-- If there is not everything that a pool needs, {lit}`mkbufpool` fails and changes
nothing. -/
def PoolAtomic (t : Pools) (bufsiz numbufs : Int) : Prop :=
  ¬(t.PoolFits bufsiz numbufs ∧ t.xinu.SomeSem) →
    (t.mkbufpool bufsiz numbufs).1 = SYSERR ∧
      t.SameResources (t.mkbufpool bufsiz numbufs).2

/-- If there is not everything that a port needs, {lit}`ptcreate` fails and changes
nothing. -/
def PortAtomic (t : Pools) (count : Int) : Prop :=
  ¬(0 ≤ count ∧ t.SomePort ∧ ∃ a b, a ≠ b ∧ (0 ≤ a ∧ a < NSEM ∧ t.xinu.FreeSem a) ∧
      (0 ≤ b ∧ b < NSEM ∧ t.xinu.FreeSem b)) →
    (t.ptcreate count).1 = SYSERR ∧ t.SameResources (t.ptcreate count).2

/-- No allocated port but one uses the semaphore. -/
def NotUsedBut (t : Pools) (ptnum sem : Int) : Prop :=
  ∀ q, 0 ≤ q → q < NPORTS → q ≠ ptnum → (t.porttab q).ptstate = .alloc →
    (t.porttab q).ptssem ≠ sem ∧ (t.porttab q).ptrsem ≠ sem

/-- A port has two semaphores of its own. -/
structure OwnSems (t : Pools) (ptnum : Int) : Prop where
  ssem : t.xinu.SemUsed (t.porttab ptnum).ptssem
  rsem : t.xinu.SemUsed (t.porttab ptnum).ptrsem
  distinct : (t.porttab ptnum).ptssem ≠ (t.porttab ptnum).ptrsem
  ssemOwn : t.NotUsedBut ptnum (t.porttab ptnum).ptssem
  rsemOwn : t.NotUsedBut ptnum (t.porttab ptnum).ptrsem

/-- A port that {lit}`ptcreate` returns has two semaphores of its own. -/
def PortSound (t : Pools) (count : Int) : Prop :=
  (t.ptcreate count).1 ≠ SYSERR → (t.ptcreate count).2.OwnSems (t.ptcreate count).1

/-- The semaphores that come next are there, and no port has kept one of them after it was
deleted. -/
def SemsFit (t : Pools) : Prop :=
  ∃ a b, t.xinu.FirstTwo a b ∧ ∀ q, 0 ≤ q → q < NPORTS → (t.porttab q).ptstate = .alloc →
    (t.porttab q).ptssem ≠ a ∧ (t.porttab q).ptrsem ≠ a ∧
      (t.porttab q).ptssem ≠ b ∧ (t.porttab q).ptrsem ≠ b

section

variable {t t' : Pools} {s : Xinu} {sem a b count bufsiz numbufs ptnum : Int}

/-!
## Semaphores
-/

/-- What {lit}`newsem` does with the result of its search. -/
def newsemFound (s : Xinu) : Option Int × Int → Int × Xinu
  | (none, place) => (SYSERR, s.setNextsem place)
  | (some sem, place) =>
      (sem, (s.setNextsem place).setSem sem fun e => { e with sstate := .used })

theorem newsemLoop_eq (n : Nat) (s : Xinu) :
    Xinu.newsemLoop n s =
      newsemFound s (search NSEM (fun sem => (s.semtab sem).sstate = .free) n s.nextsem) := by
  induction n generalizing s with
  | zero => rfl
  | succ n ih =>
      unfold Xinu.newsemLoop search
      dsimp only
      by_cases hfree : (s.semtab s.nextsem).sstate = .free
      · rw [if_pos hfree]
        exact if_pos hfree
      · rw [if_neg hfree]
        exact (if_neg hfree).trans (ih _)

theorem semcreate_cases (count : Int)
    (hnext : 0 ≤ t.xinu.nextsem ∧ t.xinu.nextsem < NSEM)
    (hcount : 0 ≤ count) :
    ((t.semcreate count).1 = SYSERR ∧ t.xinu.NoSem (t.semcreate count).2.xinu) ∨
    ∃ sem, (t.semcreate count).1 = sem ∧ t.xinu.Took count sem (t.semcreate count).2.xinu := by
  have hcreate : t.xinu.semcreate count =
      if t.xinu.newsem.1 = SYSERR then t.xinu.newsem.2.ret SYSERR
      else (t.xinu.newsem.2.setSem t.xinu.newsem.1 fun e => { e with scount := count }).ret
        t.xinu.newsem.1 := if_neg (by omega)
  have hnew : t.xinu.newsem =
      newsemFound t.xinu (search NSEM t.xinu.FreeSem NSEM.toNat t.xinu.nextsem) :=
    newsemLoop_eq NSEM.toNat t.xinu
  unfold semcreate
  rw [hcreate]
  rcases search_all t.xinu.FreeSem (n := NSEM.toNat) hnext.1 hnext.2 (by decide) with
    ⟨hnone, hall⟩ | ⟨sem, hsome, hnear⟩
  · left
    rcases hsearch : search NSEM t.xinu.FreeSem NSEM.toNat t.xinu.nextsem with ⟨found, place⟩
    rw [hsearch] at hnone
    cases hnone
    rw [hsearch] at hnew
    rw [hnew]
    constructor
    · exact upd_self
    · constructor
      · intro hsem
        obtain ⟨sem, h0, hlt, hfree⟩ := hsem
        exact hall sem h0 hlt hfree
      · rfl
      · rfl
  · right
    have hne : sem ≠ SYSERR := by
      have hnonneg := hnear.nonneg
      unfold SYSERR
      omega
    rw [hsome] at hnew
    rw [hnew]
    unfold newsemFound
    dsimp only
    rw [if_neg hne]
    refine ⟨sem, upd_self, hnear, rfl, ?_⟩
    simp [Xinu.ret, Xinu.setSem, Xinu.setNextsem]

/-!
## Buffer pools
-/

theorem poolBytes_bounds (h : t.PoolArgs bufsiz numbufs) :
    0 < poolBytes bufsiz numbufs ∧ poolBytes bufsiz numbufs ≤ 4294967280 := by
  obtain ⟨⟨hmin, hmax⟩, ⟨hone, hmaxn⟩, _⟩ := h
  unfold BP_MINB at hmin
  unfold BP_MAXB at hmax
  unfold BP_MAXN at hmaxn
  have hsize : 12 ≤ (bufsiz + 3) / 4 * 4 + 4 := by omega
  have hsize' : (bufsiz + 3) / 4 * 4 + 4 ≤ 8196 := by omega
  have hlow : 1 * 12 ≤ numbufs * ((bufsiz + 3) / 4 * 4 + 4) := by
    apply mul_le_mul hone hsize <;> omega
  have hhigh : numbufs * ((bufsiz + 3) / 4 * 4 + 4) ≤ 2048 * 8196 := by
    apply mul_le_mul hmaxn hsize' <;> omega
  unfold poolBytes uint32
  constructor
  · omega
  · omega

theorem sameResources_self (h : t'.xinu.mem = t.xinu.mem) (hsem : t'.xinu.semtab = t.xinu.semtab)
    (hpools : t'.nbpools = t.nbpools ∧ t'.buftab = t.buftab) (hport : t'.porttab = t.porttab) :
    t.SameResources t' where
  freeList := by rw [h]
  total := by rw [h]
  semtab := hsem
  nbpools := hpools.1
  buftab := hpools.2
  porttab := hport

/-- The memory for the pool. -/
def poolMem (t : Pools) (bufsiz numbufs : Int) : Option Nat × Mem :=
  t.xinu.mem.getmem (t.xinu.envtab EV_MEMALLOC) (poolBytes bufsiz numbufs)

theorem poolMem_cases (hfree : t.xinu.mem.FreeList 0 t.xinu.mem.freeList)
    (hargs : t.PoolArgs bufsiz numbufs) :
    (∃ a m' L', t.poolMem bufsiz numbufs = (some a, m') ∧ t.PoolFits bufsiz numbufs ∧
      t.xinu.mem.Takes 0 t.xinu.mem.freeList
        { start := a, size := roundmb (poolBytes bufsiz numbufs) } m' L') ∨
    (t.poolMem bufsiz numbufs = (none, t.xinu.mem) ∧ ¬t.PoolFits bufsiz numbufs) := by
  obtain ⟨hpos, hle⟩ := poolBytes_bounds hargs
  rcases getmem_ok hfree (t.xinu.envtab EV_MEMALLOC) (Or.inl (roundmb_pos hpos hle)) with
    ⟨a, m', L', heq, htakes⟩ | ⟨heq, hsmall⟩
  · left
    refine ⟨a, m', L', heq, ⟨hargs, ?_⟩, htakes⟩
    obtain ⟨b, hb, hlow, hhigh⟩ := htakes.within
    refine ⟨b, hb, ?_⟩
    unfold Span.stop at hhigh
    dsimp only at hlow hhigh
    omega
  · right
    constructor
    · exact heq
    · intro hfits
      obtain ⟨b, hb, hbytes⟩ := hfits.memory
      have hlt := (hsmall.resolve_left (Nat.ne_of_gt hpos)) b hb
      omega

/-- {lit}`mkbufpool` when the memory was obtained, with the fields that it sets first. -/
def poolEntered (t : Pools) (bufsiz : Int) (buf : Nat) (m : Mem) : Pools :=
  ((t.setMem m).setNbpools (t.nbpools + 1)).setPool t.nbpools fun e =>
    { e with bpnext := buf, bpsize := uint32 ((bufsiz + 3) / 4 * 4) }

theorem mkbufpool_bad (hargs : ¬t.PoolArgs bufsiz numbufs) :
    t.mkbufpool bufsiz numbufs = (SYSERR, t) := by
  unfold mkbufpool
  apply if_pos
  by_contra hnot
  simp only [not_or, not_lt, not_le] at hnot
  obtain ⟨hmin, hmax, hone, hmaxn, hroom⟩ := hnot
  exact hargs ⟨⟨hmin, hmax⟩, ⟨hone, hmaxn⟩, hroom⟩

theorem mkbufpool_good (hargs : t.PoolArgs bufsiz numbufs) :
    ¬(bufsiz < BP_MINB ∨ BP_MAXB < bufsiz ∨ numbufs < 1 ∨ BP_MAXN < numbufs ∨
      NBPOOLS ≤ t.nbpools) := by
  have hsize := hargs.size
  have hnumber := hargs.number
  have hroom := hargs.room
  omega

theorem mkbufpool_noMemory {m' : Mem} (hargs : t.PoolArgs bufsiz numbufs)
    (hmem : t.poolMem bufsiz numbufs = (none, m')) :
    t.mkbufpool bufsiz numbufs = (SYSERR, t.setMem m') := by
  unfold poolMem poolBytes at hmem
  unfold mkbufpool
  rw [if_neg (mkbufpool_good hargs)]
  dsimp only
  rw [hmem]

/-- Without a semaphore the memory stays taken. -/
theorem mkbufpool_noSem {m' : Mem} {buf : Nat} (hargs : t.PoolArgs bufsiz numbufs)
    (hmem : t.poolMem bufsiz numbufs = (some buf, m'))
    (hsem : ((t.poolEntered bufsiz buf m').semcreate numbufs).1 = SYSERR) :
    (t.mkbufpool bufsiz numbufs).2.xinu =
      ((t.poolEntered bufsiz buf m').semcreate numbufs).2.xinu := by
  unfold poolMem poolBytes at hmem
  unfold poolEntered at hsem ⊢
  unfold mkbufpool
  rw [if_neg (mkbufpool_good hargs)]
  dsimp only
  rw [hmem]
  dsimp only
  split
  · rfl
  · exact absurd hsem ‹_›

/-- {lit}`mkbufpool` fails without a trace exactly when it does not fail for want of a
semaphore. -/
theorem poolAtomic_iff (hranged : t.Ranged) (hfree : t.xinu.mem.FreeList 0 t.xinu.mem.freeList) :
    t.PoolAtomic bufsiz numbufs ↔ ¬t.PoolFits bufsiz numbufs ∨ t.xinu.SomeSem := by
  constructor
  · intro hatomic
    by_contra hnot
    obtain ⟨hfits, hnone⟩ := not_or.mp hnot
    have hfits := not_not.mp hfits
    have hsame := (hatomic fun h => hnone h.2).2
    rcases poolMem_cases hfree hfits.args with ⟨a, m', L', hmem, _, htakes⟩ | ⟨_, hno⟩
    · obtain ⟨hpos, hle⟩ := poolBytes_bounds hfits.args
      rcases semcreate_cases (t := t.poolEntered bufsiz a m') numbufs hranged.nextsem
        (by have hnumber := hfits.args.number; omega) with ⟨hsem, hno⟩ | ⟨sem, _, htook⟩
      · have hlist := hsame.freeList
        rw [mkbufpool_noSem hfits.args hmem hsem, hno.mem] at hlist
        exact htakes.freeList_ne (roundmb_pos hpos hle) hlist
      · exact hnone ⟨sem, htook.nearest.nonneg, htook.nearest.lt, htook.nearest.found⟩
    · exact hno hfits
  · intro hcond hneed
    have hfits : ¬t.PoolFits bufsiz numbufs := by
      rcases hcond with hfits | hsome
      · exact hfits
      · exact fun hfits => hneed ⟨hfits, hsome⟩
    by_cases hargs : t.PoolArgs bufsiz numbufs
    · rcases poolMem_cases hfree hargs with ⟨_, _, _, _, hyes, _⟩ | ⟨hmem, _⟩
      · exact absurd hyes hfits
      · rw [mkbufpool_noMemory hargs hmem]
        exact ⟨rfl, sameResources_self rfl rfl ⟨rfl, rfl⟩ rfl⟩
    · rw [mkbufpool_bad hargs]
      exact ⟨rfl, sameResources_self rfl rfl ⟨rfl, rfl⟩ rfl⟩

/-!
## Ports
-/

/-- What {lit}`ptcreate` does with the result of its search. -/
def portFound (t : Pools) (count : Int) : Option Int × Int → Int × Pools
  | (none, place) => (SYSERR, { t with ptnextid := place })
  | (some ptnum, place) => (ptnum, { t with ptnextid := place }.ptcreateAt ptnum count)

theorem ptcreateLoop_eq (n : Nat) (t : Pools) :
    ptcreateLoop count n t = portFound t count (search NPORTS t.FreePort n t.ptnextid) := by
  induction n generalizing t with
  | zero => rfl
  | succ n ih =>
      unfold ptcreateLoop search
      dsimp only
      by_cases hfree : t.FreePort t.ptnextid
      · rw [if_pos hfree]
        exact if_pos hfree
      · rw [if_neg hfree]
        exact (if_neg hfree).trans (ih _)

theorem ptcreate_cases (hranged : t.Ranged) (hcount : 0 ≤ count) :
    (¬t.SomePort ∧ ∃ place, t.ptcreate count = (SYSERR, { t with ptnextid := place })) ∨
    ∃ ptnum place, (0 ≤ ptnum ∧ ptnum < NPORTS ∧ t.FreePort ptnum) ∧
      t.ptcreate count = (ptnum, { t with ptnextid := place }.ptcreateAt ptnum count) := by
  have hloop : t.ptcreate count =
      portFound t count (search NPORTS t.FreePort NPORTS.toNat t.ptnextid) :=
    (if_neg (by omega)).trans (ptcreateLoop_eq _ t)
  rw [hloop]
  rcases search_all t.FreePort (n := NPORTS.toNat) hranged.ptnextid.1
    hranged.ptnextid.2 (by decide) with ⟨hnone, hall⟩ | ⟨ptnum, hsome, hnear⟩
  · left
    rcases hsearch : search NPORTS t.FreePort NPORTS.toNat t.ptnextid with ⟨found, place⟩
    rw [hsearch] at hnone
    cases hnone
    constructor
    · intro hport
      obtain ⟨ptnum, h0, hlt, hfree⟩ := hport
      exact hall ptnum h0 hlt hfree
    · exact ⟨place, rfl⟩
  · right
    rw [hsome]
    exact ⟨ptnum, _, ⟨hnear.nonneg, hnear.lt, hnear.found⟩, rfl⟩

/-- The port is entered in its table, and the first semaphore is asked for. -/
def firstSem (t : Pools) (ptnum count : Int) : Int × Pools :=
  (t.setPort ptnum fun e => { e with ptstate := .alloc }).semcreate count

/-- The first semaphore is entered, and the second is asked for. -/
def secondSem (t : Pools) (ptnum count : Int) : Int × Pools :=
  ((t.firstSem ptnum count).2.setPort ptnum
    fun e => { e with ptssem := (t.firstSem ptnum count).1 }).semcreate 0

theorem ptcreateAt_entry (t : Pools) (ptnum count : Int) :
    ((t.ptcreateAt ptnum count).porttab ptnum).ptssem =
      (t.firstSem ptnum count).1 ∧
    ((t.ptcreateAt ptnum count).porttab ptnum).ptrsem = (t.secondSem ptnum count).1 := by
  unfold secondSem firstSem ptcreateAt setPort semcreate
  simp

theorem ptcreateAt_other {q : Int} (h : q ≠ ptnum) :
    (t.ptcreateAt ptnum count).porttab q = t.porttab q := by
  unfold ptcreateAt setPort semcreate
  simp [upd_of_ne h]

/-- The semaphores of a new port: one of them is not there, or they are the first two free
ones. -/
theorem ptcreateAt_cases (ptnum : Int)
    (hnext : 0 ≤ t.xinu.nextsem ∧ t.xinu.nextsem < NSEM)
    (hcount : 0 ≤ count) :
    ((((t.ptcreateAt ptnum count).porttab ptnum).ptssem = SYSERR ∨
      ((t.ptcreateAt ptnum count).porttab ptnum).ptrsem = SYSERR) ∧
      ∀ a b, ¬t.xinu.FirstTwo a b) ∨
    ∃ a b, t.xinu.FirstTwo a b ∧ ((t.ptcreateAt ptnum count).porttab ptnum).ptssem = a ∧
      ((t.ptcreateAt ptnum count).porttab ptnum).ptrsem = b ∧
      (t.ptcreateAt ptnum count).xinu.SemUsed a ∧
      (t.ptcreateAt ptnum count).xinu.SemUsed b ∧
      ((t.ptcreateAt ptnum count).xinu.semtab a).scount = count ∧
      ((t.ptcreateAt ptnum count).xinu.semtab b).scount = 0 := by
  obtain ⟨hssem, hrsem⟩ := t.ptcreateAt_entry ptnum count
  rw [hssem, hrsem]
  have hfirst : ((t.firstSem ptnum count).1 = SYSERR ∧ t.xinu.NoSem _) ∨ ∃ sem,
      (t.firstSem ptnum count).1 = sem ∧ t.xinu.Took count sem (t.firstSem ptnum count).2.xinu :=
    semcreate_cases (t := t.setPort ptnum fun e => { e with ptstate := .alloc }) count hnext hcount
  rcases hfirst with ⟨hnone, hno⟩ | ⟨a, ha, htook⟩
  · left
    constructor
    · exact Or.inl hnone
    · intro a b htwo
      exact hno.none ⟨a, htwo.first.nonneg, htwo.first.lt, htwo.first.found⟩
  · have hnext' : 0 ≤ (t.firstSem ptnum count).2.xinu.nextsem ∧
        (t.firstSem ptnum count).2.xinu.nextsem < NSEM := by
      rw [htook.nextsem]
      exact ⟨next_nonneg htook.nearest.nonneg, next_lt htook.nearest.lt htook.nearest.nonneg⟩
    have hsecond : ((t.secondSem ptnum count).1 = SYSERR ∧
        (t.firstSem ptnum count).2.xinu.NoSem _) ∨ ∃ sem, (t.secondSem ptnum count).1 = sem ∧
        (t.firstSem ptnum count).2.xinu.Took 0 sem (t.secondSem ptnum count).2.xinu :=
      semcreate_cases (t := (t.firstSem ptnum count).2.setPort ptnum
        fun e => { e with ptssem := (t.firstSem ptnum count).1 }) 0 hnext' le_rfl
    rcases hsecond with ⟨hnone, hno⟩ | ⟨b, hb, htook'⟩
    · left
      constructor
      · exact Or.inr hnone
      · intro a' b' htwo
        have heq := htook.nearest.unique htwo.first
        subst heq
        apply hno.none
        refine ⟨b', htwo.second.nonneg, htwo.second.lt, ?_⟩
        exact htook.freeSem_iff.mpr htwo.second.found
    · right
      have hused : (t.secondSem ptnum count).2.xinu.SemUsed a := htook'.semUsed_of htook.semUsed
      have hcounts : ((t.secondSem ptnum count).2.xinu.semtab a).scount = count ∧
          ((t.secondSem ptnum count).2.xinu.semtab b).scount = 0 := by
        have hne : a ≠ b := fun heq => (htook.freeSem_iff.mp htook'.nearest.found).1 heq.symm
        rw [htook'.semtab, upd_self, upd_of_ne hne, htook.semtab, upd_self]
        exact ⟨rfl, rfl⟩
      exact ⟨a, b, htook.firstTwo htook', ha, hb, hused, htook'.semUsed, hcounts⟩

theorem not_semUsed_syserr : ¬s.SemUsed SYSERR := fun h => h.1 (Or.inl (by decide))

theorem sameResources_ptnextid (place : Int) : t.SameResources { t with ptnextid := place } :=
  sameResources_self rfl rfl ⟨rfl, rfl⟩ rfl

/-- A call that succeeds is right exactly when the two semaphores are there for it. -/
theorem ownSems_iff (hranged : t.Ranged) (hcount : 0 ≤ count) (hfree : t.FreePort ptnum)
    (place : Int) :
    ({ t with ptnextid := place }.ptcreateAt ptnum count).OwnSems ptnum ↔ t.SemsFit := by
  have hother : ∀ q, q ≠ ptnum →
      ({ t with ptnextid := place }.ptcreateAt ptnum count).porttab q = t.porttab q :=
    fun q hq => ptcreateAt_other hq
  have hne : ∀ q, (t.porttab q).ptstate = .alloc → q ≠ ptnum := by
    intro q hq heq
    have hstate : (t.porttab ptnum).ptstate = .free := hfree
    rw [← heq, hq] at hstate
    cases hstate
  rcases ptcreateAt_cases (t := { t with ptnextid := place }) ptnum hranged.nextsem
    hcount with ⟨hmissing, hno⟩ | ⟨a, b, htwo, ha, hb, hused, hused', _⟩
  · apply iff_of_false
    · intro hown
      rcases hmissing with hmissing | hmissing
      · exact not_semUsed_syserr (hmissing ▸ hown.ssem)
      · exact not_semUsed_syserr (hmissing ▸ hown.rsem)
    · intro hfit
      obtain ⟨a, b, htwo, _⟩ := hfit
      exact hno a b htwo
  · constructor
    · intro hown
      refine ⟨a, b, htwo, fun q h0 hlt hq => ?_⟩
      have hkept := hother q (hne q hq)
      have hstate := hkept.symm ▸ hq
      have hfirst := hown.ssemOwn q h0 hlt (hne q hq) hstate
      have hsecond := hown.rsemOwn q h0 hlt (hne q hq) hstate
      rw [ha, hkept] at hfirst
      rw [hb, hkept] at hsecond
      exact ⟨hfirst.1, hfirst.2, hsecond.1, hsecond.2⟩
    · intro hfit
      obtain ⟨a', b', htwo', hfresh⟩ := hfit
      obtain ⟨rfl, rfl⟩ := Xinu.FirstTwo.unique htwo' htwo
      constructor
      · rw [ha]
        exact hused
      · rw [hb]
        exact hused'
      · rw [ha, hb]
        exact fun heq => htwo.second.found.1 heq.symm
      · intro q h0 hlt hq hstate
        rw [hother q hq] at hstate ⊢
        have hkept := hfresh q h0 hlt hstate
        rw [ha]
        exact ⟨hkept.1, hkept.2.1⟩
      · intro q h0 hlt hq hstate
        rw [hother q hq] at hstate ⊢
        have hkept := hfresh q h0 hlt hstate
        rw [hb]
        exact ⟨hkept.2.2.1, hkept.2.2.2⟩

theorem ptcreate_negative (hcount : count < 0) : t.ptcreate count = (SYSERR, t) := if_pos hcount

/-- {lit}`ptcreate` is right exactly when it does not come to look for semaphores, or the two
that come next are there and not kept by another port. -/
theorem ports_iff (hranged : t.Ranged) :
    t.PortAtomic count ∧ t.PortSound count ↔ count < 0 ∨ ¬t.SomePort ∨ t.SemsFit := by
  by_cases hcount : count < 0
  · apply iff_of_true
    · unfold PortAtomic PortSound
      rw [ptcreate_negative hcount]
      exact ⟨fun _ => ⟨rfl, sameResources_self rfl rfl ⟨rfl, rfl⟩ rfl⟩, fun h => absurd rfl h⟩
    · exact Or.inl hcount
  have hnonneg : 0 ≤ count := by omega
  unfold PortAtomic PortSound
  rcases ptcreate_cases hranged hnonneg with ⟨hnone, place, heq⟩ | ⟨ptnum, place, hport, heq⟩
  · rw [heq]
    apply iff_of_true
    · exact ⟨fun _ => ⟨rfl, sameResources_ptnextid place⟩, fun h => absurd rfl h⟩
    · exact Or.inr (Or.inl hnone)
  · obtain ⟨h0, hlt, hfree⟩ := hport
    have hne : ptnum ≠ SYSERR := by
      unfold SYSERR
      omega
    have hsome : t.SomePort := ⟨ptnum, h0, hlt, hfree⟩
    have hown := ownSems_iff hranged hnonneg hfree place
    rw [heq]
    constructor
    · intro h
      exact Or.inr (Or.inr (hown.mp (h.2 hne)))
    · intro h
      have hfit := (h.resolve_left hcount).resolve_left (not_not.mpr hsome)
      constructor
      · intro hneed
        obtain ⟨a, b, htwo, _⟩ := hfit
        exfalso
        apply hneed
        refine ⟨hnonneg, hsome, b, a, htwo.second.found.1, ?_, ?_⟩
        · exact ⟨htwo.second.nonneg, htwo.second.lt, htwo.second.found.2⟩
        · exact ⟨htwo.first.nonneg, htwo.first.lt, htwo.first.found⟩
      · exact fun _ => hown.mpr hfit

end

/-- While the ports that there are use their semaphores, two free ones are enough. -/
theorem semsFit_of_used {t : Pools} (hranged : t.Ranged)
    (hused : ∀ q, 0 ≤ q → q < NPORTS → (t.porttab q).ptstate = .alloc →
      ¬t.xinu.FreeSem (t.porttab q).ptssem ∧ ¬t.xinu.FreeSem (t.porttab q).ptrsem)
    (htwo : ∃ a b, a ≠ b ∧ (0 ≤ a ∧ a < NSEM ∧ t.xinu.FreeSem a) ∧
      (0 ≤ b ∧ b < NSEM ∧ t.xinu.FreeSem b)) : t.SemsFit := by
  obtain ⟨h0, hlt⟩ := hranged.nextsem
  obtain ⟨a, b, hne, ha, hb⟩ := htwo
  obtain ⟨first, hfirst⟩ := exists_nearest h0 hlt ⟨a, ha⟩
  have hother : ∃ i, 0 ≤ i ∧ i < NSEM ∧ i ≠ first ∧ t.xinu.FreeSem i := by
    by_cases heq : a = first
    · exact ⟨b, hb.1, hb.2.1, fun h => hne (heq.trans h.symm), hb.2.2⟩
    · exact ⟨a, ha.1, ha.2.1, heq, ha.2.2⟩
  obtain ⟨second, hsecond⟩ := exists_nearest h0 hlt hother
  refine ⟨first, second, ⟨hfirst, hsecond⟩, fun q hq0 hqlt hq => ?_⟩
  obtain ⟨hssem, hrsem⟩ := hused q hq0 hqlt hq
  have hkept : ∀ {sem free}, t.xinu.FreeSem free → ¬t.xinu.FreeSem sem → sem ≠ free :=
    fun hfree hsem heq => hsem (heq ▸ hfree)
  exact ⟨hkept hfirst.found hssem, hkept hfirst.found hrsem, hkept hsecond.found.2 hssem,
    hkept hsecond.found.2 hrsem⟩

/-- {lit}`mkbufpool` and {lit}`ptcreate` fail without a trace, and a new port has semaphores
of its own, exactly when neither comes to want a semaphore that is not there. -/
theorem creations_atomic_iff {t : Pools} {bufsiz numbufs count : Int} (hranged : t.Ranged)
    (hfree : t.xinu.mem.FreeList 0 t.xinu.mem.freeList) :
    t.PoolAtomic bufsiz numbufs ∧ t.PortAtomic count ∧ t.PortSound count ↔
      (¬t.PoolFits bufsiz numbufs ∨ t.xinu.SomeSem) ∧
        (count < 0 ∨ ¬t.SomePort ∨ t.SemsFit) := by
  rw [poolAtomic_iff hranged hfree, ports_iff hranged]

/-- A free entry of the port table. -/
def noPort : Ptentry where
  ptssem := 0
  ptrsem := 0
  ptstate := .free
  ptmaxcnt := 0
  ptseq := 0
  pthead := 0
  pttail := 0

/-- A machine without pools and ports. -/
def noPools (s : Xinu) : Pools where
  xinu := s
  buftab := fun _ => { bpnext := 0, bpsem := 0, bpsize := 0 }
  nbpools := 0
  bpnext := fun _ => 0
  porttab := fun _ => noPort
  ptnextid := 0

/-- A machine with one free block and no free semaphore. -/
def noSems : Pools :=
  noPools { sampleHost with semtab := fun i => { sampleHost.semtab i with sstate := .used } }

/-- After the start there are semaphores for both. -/
theorem creations_atomic_start :
    (noPools sampleHost).PoolAtomic 64 4 ∧ (noPools sampleHost).PortAtomic 5 ∧
      (noPools sampleHost).PortSound 5 := by
  have hranged : (noPools sampleHost).Ranged := ⟨by decide +kernel, by decide +kernel⟩
  apply (creations_atomic_iff hranged sampleHost_free).mpr
  constructor
  · right
    exact ⟨0, by decide +kernel, by decide +kernel, by decide +kernel⟩
  · right
    right
    apply semsFit_of_used hranged
    · intro q _ _ hq
      cases hq
    · exact ⟨0, 1, by decide +kernel, by decide +kernel, by decide +kernel⟩

/-- A pool of four buffers and a port for five messages are asked for, and there is no
semaphore. -/
theorem creations_not_atomic : noSems.Ranged ∧
    noSems.xinu.mem.FreeList 0 noSems.xinu.mem.freeList ∧
    ¬noSems.PoolAtomic 64 4 ∧ ¬noSems.PortAtomic 5 ∧ ¬noSems.PortSound 5 := by
  have hnone : ∀ sem, ¬noSems.xinu.FreeSem sem := by
    intro sem hsem
    cases hsem
  refine ⟨⟨by decide +kernel, by decide +kernel⟩, sampleHost_free, fun hpool => ?_, fun hport => ?_,
    fun hsound => ?_⟩
  · have hsame := (hpool fun h => h.2.elim fun sem hsem => hnone sem hsem.2.2).2
    have htotal : (noSems.mkbufpool 64 4).2.xinu.mem.total ≠ noSems.xinu.mem.total := by
      decide +kernel
    exact htotal hsame.total
  · have hfails := (hport fun h => h.2.2.elim fun a h => h.elim fun b h => hnone a h.2.1.2.2).1
    have hreturns : (noSems.ptcreate 5).1 ≠ SYSERR := by decide +kernel
    exact hreturns hfails
  · have hown := hsound (by decide +kernel)
    have hmissing : isbadsem ((noSems.ptcreate 5).2.porttab (noSems.ptcreate 5).1).ptssem := by
      decide +kernel
    exact hown.ssem.1 hmissing

end Pools
end BbbXinu
