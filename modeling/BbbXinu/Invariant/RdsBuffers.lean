import BbbXinu.Invariant.RdsLists
import BbbXinu.Invariant.RdsReaders

/-!
# The buffers of the remote disk

What is true of the lists, the readers and the two semaphores together, and what every
step keeps of it, as long as nobody is led into the traps of the code.  Two of them spoil
the lists: a second request for a block that was just read, and a disk that is deleted while
a buffer is referenced.  Two more spoil the count of the available semaphore: a cached
copy that is taken for a write request while no unit of the semaphore is left, and a
cache full of referenced buffers.
-/

namespace BbbXinu
namespace Rds

open LinkedLists

/-!
## Traps
-/

namespace Disk

/-- The number of buffers in the cache that are referenced. -/
def referenced (s : Disk) : Nat :=
  ((walk s.next IsBuffer RD_BUFFS (s.next .chnext)).filter fun b =>
    decide (0 < (s.node b).refcnt)).length

/-- There are more units of the available semaphore, counting those of processes that were
released and have not gone on, than referenced buffers. -/
def Fits (s : Disk) : Prop := (s.referenced : Int) < s.availsem.units

instance (s : Disk) : Decidable s.Fits := inferInstanceAs (Decidable (_ < _))

/-- {lit}`rdsread` does not find the block. -/
def Misses (s : Disk) (blk : UInt32) : Prop := (s.hit blk).any Option.isNone = true

instance (s : Disk) (blk : UInt32) : Decidable (s.Misses blk) := inferInstanceAs (Decidable (_ = _))

/-- {lit}`rdswrite` may take a cached copy, or allocate a buffer. -/
def SafeWrite (s : Disk) (c : Ptr) : Prop :=
  if s.Reuses c then s.availsem.Open else s.availsem.Open → s.Fits

instance (s : Disk) (c : Ptr) : Decidable (s.SafeWrite c) :=
  inferInstanceAs (Decidable (if s.Reuses c then s.availsem.Open else s.availsem.Open → s.Fits))

end Disk

/-- The buffer whose reader has been told, while other requests for its block are looked for. -/
def Comm.toldOf : Comm → Option Ptr
  | .told b => some b
  | _ => none

/-- What a step may not do for the sake of the lists. -/
def Orderly (s : Disk) : Label → Prop
  | .deleted _ reply => reply.isSome = true → s.Closes → s.referenced = 0
  | .comm => ∀ b ∈ s.comm.toldOf, s.sameBlock b = some .rtnext
  | _ => True

instance (s : Disk) : DecidablePred (Orderly s)
  | .deleted _ _ => inferInstanceAs (Decidable (_ → _ → _))
  | .comm => inferInstanceAs (Decidable (∀ _ ∈ _, _))
  | .read _ _ | .write _ _ _ | .sync _ | .delete _ | .alloc _ | .receive _ =>
      inferInstanceAs (Decidable True)

/-- What a step may not do for the sake of the available semaphore. -/
def Affordable (s : Disk) : Label → Prop
  | .read _ blk => s.Misses blk → s.availsem.Open → s.Fits
  | .write _ blk _ =>
      s.pendingWrite blk = some .rtnext → ∀ c ∈ s.cachedCopy blk, s.SafeWrite c
  | .sync _ => s.availsem.Open → s.Fits
  | .alloc _ => s.Fits
  | _ => True

instance (s : Disk) : DecidablePred (Affordable s)
  | .read _ _ => inferInstanceAs (Decidable (_ → _ → _))
  | .write _ _ _ => inferInstanceAs (Decidable (_ → ∀ _ ∈ _, _))
  | .sync _ => inferInstanceAs (Decidable (_ → _))
  | .alloc _ => inferInstanceAs (Decidable (Disk.Fits _))
  | .delete _ | .deleted _ _ | .receive _ | .comm => inferInstanceAs (Decidable True)

/-!
## The invariant
-/

/-- The number of requests that {lit}`rdsprocess` works at and that are still queued. -/
def Comm.atWork : Comm → Nat
  | .reading _ => 1
  | .synced _ => 1
  | _ => 0

def Disk.atWork (s : Disk) : Nat := s.comm.atWork

/-- 1 while {lit}`rdsprocess` is inside {lit}`wait`. -/
def Comm.waits : Comm → Nat
  | .waiting => 1
  | _ => 0

/-- The number of requests that were put into the queue without a signal. -/
def Log.syncs (l : Log) : Nat := l.asked.countP fun r => decide (r.op = .sync)

/-- The phases in which a process waits in {lit}`rdsbufalloc`. -/
def Allocates : Phase → Prop
  | .allocRead _ | .allocWrite _ _ | .allocSync => True
  | _ => False

/-- Those who are inside {lit}`rdsbufalloc` are in a phase that says so. -/
def Inside (T : Turnstile Int) (phase : Int → Phase) : Prop :=
  T.inside.Nodup ∧ ∀ p ∈ T.inside, Allocates (phase p)

/-- Links and the free list have changed, and nothing else. -/
def Relinked (s t : Disk) : Prop := ∃ nx pv b, t = { s with next := nx, prev := pv, free := b }

/-- A process that has got its buffer in {lit}`rdsbufalloc` goes on for its caller. -/
def Disk.place (s : Disk) (pid : Int) (b : Ptr) : Phase → Disk
  | .allocRead blk => s.putRead pid blk b
  | .allocWrite blk buff => s.putWrite pid blk buff b
  | .allocSync => s.putSync pid b
  | _ => s

/-- Each request that was signalled and not taken has a unit, and what was asked for is what
was taken, followed by what is queued. -/
structure Orders (s : Disk) (queued : List Ptr) : Prop where
  pending : s.reqsem.units + s.log.syncs = queued.length
  logged : s.log.asked = s.log.taken ++ queued.map fun b => (s.node b).request
  waiting : s.reqsem.inside.length = s.comm.waits

/-- The lists are what the links say, requests, answers and readers agree, and, if somebody
looks after that, each available buffer has a unit, but for some units that are on their way. -/
structure Sound (A : Prop) (d : Nat) (s : Disk) (reqs cached free held : List Ptr) : Prop where
  shape : Shape s reqs cached free held
  served : Served s reqs cached
  orders : Orders s (reqs.drop s.atWork)
  available : A → s.availsem.units + d = free.length + cached.length
  inside : Inside s.availsem s.phase

namespace Inside

variable {T : Turnstile Int} {phase : Int → Phase} {pid : Int}

theorem not_mem (h : Inside T phase) (hph : ¬Allocates (phase pid)) : pid ∉ T.inside :=
  fun hmem => hph (h.2 pid hmem)

/-- One who is not inside may do what it likes. -/
theorem setPhase (h : Inside T phase) (hpid : pid ∉ T.inside) (ph : Phase) :
    Inside T (upd phase pid ph) := by
  refine ⟨h.1, fun p hp => ?_⟩
  have hne : p ≠ pid := by
    rintro rfl
    exact hpid hp
  rw [upd_of_ne hne]
  exact h.2 p hp

theorem signal (h : Inside T phase) (n : Nat) : Inside (T.signal n) phase :=
  ⟨Turnstile.inside_signal.nodup_iff.mpr h.1,
    fun p hp => h.2 p (Turnstile.inside_signal.mem_iff.mp hp)⟩

theorem enterClosed (h : Inside T phase) (hclosed : ¬T.Open) (hpid : pid ∉ T.inside) {ph : Phase}
    (hph : Allocates ph) : Inside (T.enter pid) (upd phase pid ph) := by
  have hinside : (T.enter pid).inside = T.queue.waiters ++ [pid] ++ T.granted := by
    change (T.queue.wait pid).waiters ++ T.granted = _
    rw [Turnstile.waiters_closed hclosed]
  have hold : T.inside = T.queue.waiters ++ T.granted := rfl
  have hnd := h.1
  constructor
  · rw [hinside]
    grind
  · intro p hp
    by_cases heq : p = pid
    · rw [heq, upd_self]
      exact hph
    · rw [upd_of_ne heq]
      exact h.2 p (by grind)

/-- One who goes on is no longer inside. -/
theorem resume (h : Inside T phase) (hmem : pid ∈ T.granted) :
    Inside (T.resume pid) phase ∧ pid ∉ (T.resume pid).inside := by
  have hinside : (T.resume pid).inside = T.queue.waiters ++ T.granted.erase pid := rfl
  have hold : T.inside = T.queue.waiters ++ T.granted := rfl
  have hnd := h.1
  have hsub := List.erase_subset (a := pid) (l := T.granted)
  refine ⟨⟨?_, fun p hp => h.2 p ?_⟩, ?_⟩
  · rw [hinside]
    rw [hold] at hnd
    exact hnd.sublist (List.Sublist.append_left List.erase_sublist _)
  · rw [hinside] at hp
    rw [hold]
    grind
  · rw [hinside]
    grind

end Inside

namespace Orders

variable {s s' : Disk} {queued : List Ptr} {b : Ptr} {n : RdBuff}

theorem congr (h : Orders s queued) (hsem : s'.reqsem = s.reqsem) (hlog : s'.log = s.log)
    (hcomm : s'.comm.waits = s.comm.waits)
    (hnode : ∀ c ∈ queued, (s'.node c).request = (s.node c).request) : Orders s' queued where
  pending := by
    rw [hsem, hlog]
    exact h.pending
  logged := by
    rw [hlog, List.map_congr_left hnode]
    exact h.logged
  waiting := by
    rw [hsem, hcomm]
    exact h.waiting

/-- A request is put at the end of the queue. -/
theorem put (h : Orders s queued) (hb : b ∉ queued) (hnode : s'.node = upd s.node b n)
    (hlog : s'.log = { s.log with asked := s.log.asked ++ [n.request] })
    (hcomm : s'.comm = s.comm)
    (hsem : n.op ≠ .sync ∧ s'.reqsem = s.reqsem.signal 1 ∨ n.op = .sync ∧ s'.reqsem = s.reqsem) :
    Orders s' (queued ++ [b]) where
  pending := by
    have hpend := h.pending
    have hunits : (s.reqsem.signal 1).units = s.reqsem.units + 1 := Turnstile.units_signal
    have hsyncs : s'.log.syncs = s.log.syncs + if n.op = .sync then 1 else 0 := by
      rw [hlog]
      unfold Log.syncs
      rw [List.countP_append, List.countP_singleton]
      by_cases hop : n.op = .sync
      · simp [RdBuff.request, hop]
      · simp [RdBuff.request, hop]
    rw [hsyncs, List.length_append, List.length_singleton]
    rcases hsem with ⟨hop, hsem⟩ | ⟨hop, hsem⟩
    · rw [hsem, if_neg hop]
      omega
    · rw [hsem, if_pos hop]
      omega
  logged := by
    have hold : queued.map (fun c => (s'.node c).request) =
        queued.map fun c => (s.node c).request := by
      refine List.map_congr_left fun c hc => ?_
      have hne : c ≠ b := by
        rintro rfl
        exact hb hc
      rw [hnode, upd_of_ne hne]
    rw [List.map_append, hold, hlog, List.map_singleton, hnode, upd_self, ← List.append_assoc,
      ← h.logged]
  waiting := by
    rw [hcomm, ← h.waiting]
    rcases hsem with ⟨-, hsem⟩ | ⟨-, hsem⟩
    · rw [hsem, Turnstile.length_signal]
    · rw [hsem]

/-- {lit}`rdsprocess` has passed its wait and takes the first request. -/
theorem take (h : Orders s (b :: queued)) (hunits : s'.reqsem.units = s.reqsem.units - 1)
    (hinside : s'.reqsem.inside = []) (hcomm : s'.comm.waits = 0)
    (hlog : s'.log = { s.log with taken := s.log.taken ++ [(s.node b).request] })
    (hnode : ∀ c ∈ queued, (s'.node c).request = (s.node c).request) : Orders s' queued where
  pending := by
    have hpend := h.pending
    rw [List.length_cons] at hpend
    rw [hunits, hlog]
    change s.reqsem.units - 1 + s.log.syncs = _
    omega
  logged := by
    have hlogged := h.logged
    rw [hlog, List.map_congr_left hnode, List.append_assoc]
    exact hlogged
  waiting := by
    rw [hinside, hcomm]
    rfl

end Orders

namespace Sound

variable {A : Prop} {d : Nat} {s s' : Disk} {reqs cached free held : List Ptr} {b : Ptr} {pid : Int}
  {blk : UInt32}

/-- A field that the invariant does not read has changed. -/
theorem congr (h : Sound A d s reqs cached free held) (hnext : s'.next = s.next)
    (hprev : s'.prev = s.prev) (hfree : s'.free = s.free) (hphase : s'.phase = s.phase)
    (hmail : s'.mail = s.mail) (hcomm : s'.comm = s.comm) (hreq : s'.reqsem = s.reqsem)
    (havail : s'.availsem = s.availsem) (hlog : s'.log = s.log)
    (hnode : ∀ c, (s'.node c).op = (s.node c).op ∧ (s'.node c).refcnt = (s.node c).refcnt ∧
      (s'.node c).blknum = (s.node c).blknum ∧ (s'.node c).pid = (s.node c).pid) :
    Sound A d s' reqs cached free held where
  shape := h.shape.congr hnext hprev hfree
  served := h.served.congr hphase hmail hcomm hnode
  orders := by
    have hwork : s'.atWork = s.atWork := by
      unfold Disk.atWork
      rw [hcomm]
    rw [hwork]
    refine h.orders.congr hreq hlog (by rw [hcomm]) fun c _ => ?_
    unfold RdBuff.request
    rw [(hnode c).1, (hnode c).2.2.1, (hnode c).2.2.2]
  available := by
    rw [havail]
    exact h.available
  inside := by
    rw [havail, hphase]
    exact h.inside

theorem not_mem (h : Shape s reqs cached free [b]) : b ∉ reqs ∧ b ∉ cached := by
  have hnd := h.nodup
  grind

/-- What {lit}`rdsprocess` works at is the first of the queue, and no request to write. -/
theorem head_of_current (h : Served s reqs cached)
    (hcomm : s.comm = .reading b ∨ s.comm = .synced b) :
    ∃ rest, reqs = b :: rest ∧ (s.node b).op ≠ .write := by
  have hcur := h.current
  unfold Disk.Current at hcur
  rcases hcomm with hc | hc
  · rw [hc] at hcur
    obtain ⟨rest, hrest⟩ := List.head?_eq_some_iff.mp hcur.1
    refine ⟨rest, hrest, ?_⟩
    rw [hcur.2]
    exact nofun
  · rw [hc] at hcur
    obtain ⟨rest, hrest⟩ := List.head?_eq_some_iff.mp hcur.1
    refine ⟨rest, hrest, ?_⟩
    rw [hcur.2]
    exact nofun

theorem atWork_le (h : Served s reqs cached) : s.atWork ≤ reqs.length := by
  unfold Disk.atWork Comm.atWork
  split
  · rename_i b hcomm
    obtain ⟨rest, rfl, -⟩ := head_of_current h (Or.inl hcomm)
    exact Nat.succ_le_succ (Nat.zero_le _)
  · rename_i b hcomm
    obtain ⟨rest, rfl, -⟩ := head_of_current h (Or.inr hcomm)
    exact Nat.succ_le_succ (Nat.zero_le _)
  · exact Nat.zero_le _

/-!
## Putting a request
-/

/-- The parts of a state in which a request has been put are what they should be. -/
theorem put {n : RdBuff} {ph : Phase} (h : Sound A 0 s reqs cached free [b]) (hout : s.Outside pid)
    (hin : pid ∉ s.availsem.inside) (hnext : s'.next = (s.enqueue b).next)
    (hprev : s'.prev = (s.enqueue b).prev) (hfree : s'.free = s.free)
    (hnode : s'.node = upd s.node b n) (hcomm : s'.comm = s.comm)
    (hlog : s'.log = { s.log with asked := s.log.asked ++ [n.request] })
    (havail : s'.availsem = s.availsem) (hphase : s'.phase = upd s.phase pid ph)
    (hmail : ∀ p, p ≠ pid → s'.mail p = s.mail p) (hnew : s'.Awaits n) (hpid : n.Asks → n.pid = pid)
    (hfresh : ∀ k, s'.phase pid = .receiving k → s'.mail pid = none)
    (hsem : n.op ≠ .sync ∧ s'.reqsem = s.reqsem.signal 1 ∨ n.op = .sync ∧ s'.reqsem = s.reqsem) :
    Sound A 0 s' (reqs ++ [b]) cached free [] where
  shape := h.shape.enqueue.congr hnext hprev hfree
  served := by
    obtain ⟨hb, hbc⟩ := not_mem h.shape
    refine h.served.put hb hbc hout hnode hcomm (fun p hp => ?_) hmail hnew hpid hfresh
    rw [hphase, upd_of_ne hp]
  orders := by
    obtain ⟨hb, -⟩ := not_mem h.shape
    have hwork : s'.atWork = s.atWork := by
      unfold Disk.atWork
      rw [hcomm]
    rw [hwork, List.drop_append_of_le_length (atWork_le h.served)]
    exact h.orders.put (fun hmem => hb (List.mem_of_mem_drop hmem)) hnode hlog hcomm hsem
  available := by
    rw [havail]
    exact h.available
  inside := by
    rw [havail, hphase]
    exact h.inside.setPhase hin ph

theorem putWrite (h : Sound A 0 s reqs cached free [b]) (hout : s.Outside pid)
    (hin : pid ∉ s.availsem.inside) (buff : Block) :
    Sound A 0 (s.putWrite pid blk buff b) (reqs ++ [b]) cached free [] := by
  refine h.put hout hin rfl rfl rfl rfl rfl rfl rfl rfl (fun p _ => rfl) (by trivial) ?_ ?_
    (Or.inl ⟨nofun, rfl⟩)
  · rintro (hop | hop) <;> cases hop
  · intro k hk
    have hidle : (s.putWrite pid blk buff b).phase pid = .idle := upd_self
    rw [hidle] at hk
    cases hk

theorem putRead (h : Sound A 0 s reqs cached free [b]) (hout : s.Outside pid)
    (hin : pid ∉ s.availsem.inside) :
    Sound A 0 (s.putRead pid blk b) (reqs ++ [b]) cached free [] :=
  h.put hout hin rfl rfl rfl rfl rfl rfl rfl rfl (fun _ hp => upd_of_ne hp) ⟨upd_self, upd_self⟩
    (fun _ => rfl) (fun _ _ => upd_self) (Or.inl ⟨nofun, rfl⟩)

theorem putSync (h : Sound A 0 s reqs cached free [b]) (hout : s.Outside pid)
    (hin : pid ∉ s.availsem.inside) :
    Sound A 0 (s.putSync pid b) (reqs ++ [b]) cached free [] :=
  h.put hout hin rfl rfl rfl rfl rfl rfl rfl rfl (fun _ hp => upd_of_ne hp) ⟨upd_self, upd_self⟩
    (fun _ => rfl) (fun _ _ => upd_self) (Or.inr ⟨rfl, rfl⟩)

/-!
## Allocating a buffer
-/

/-- What {lit}`referenced` counts. -/
theorem referenced_eq (h : Shape s reqs cached free held) :
    s.referenced = (cached.filter fun b => decide (0 < (s.node b).refcnt)).length := by
  change (s.cachedList.filter _).length = _
  rw [h.cachedList_eq]

/-- With a unit to spare there is a buffer that nobody refers to. -/
theorem spare (h : Sound A 0 s reqs cached free held) (hA : A) (hfits : s.Fits) :
    ¬(free = [] ∧ ∀ b ∈ cached, 0 < (s.node b).refcnt) := by
  rintro ⟨hfree, hrefs⟩
  have hall : (cached.filter fun b => decide (0 < (s.node b).refcnt)) = cached :=
    List.filter_eq_self.mpr fun b hb => decide_eq_true (hrefs b hb)
  have hunits := h.available hA
  unfold Disk.Fits at hfits
  rw [referenced_eq h.shape, hall] at hfits
  rw [hfree, List.length_nil] at hunits
  omega

/-- An unreferenced buffer is taken out of the cache. -/
theorem unlink_cached {l₁ l₂ : List Ptr} (h : Sound A (d + 1) s reqs (l₁ ++ b :: l₂) free [])
    (hzero : (s.node b).refcnt ≤ 0) : Sound A d (s.unlink b) reqs (l₁ ++ l₂) free [b] where
  shape := h.shape.unlink_cached
  served := by
    have hsame : Served (s.unlink b) reqs (l₁ ++ b :: l₂) :=
      h.served.congr rfl rfl rfl fun _ => ⟨rfl, rfl, rfl, rfl⟩
    refine hsame.uncache (fun c hc => by grind) fun c hc hpos => ?_
    have hne : c ≠ b := by
      rintro rfl
      exact absurd hzero (by exact Int.not_le.mpr hpos)
    grind
  orders := h.orders.congr rfl rfl rfl fun _ _ => rfl
  available := fun hA => by
    have hunits := h.available hA
    rw [List.length_append, List.length_cons] at hunits
    rw [List.length_append]
    change s.availsem.units + _ = _
    omega
  inside := h.inside

/-- A process that has its unit gets a buffer, which is on no list then, or panics. -/
theorem alloc (h : Sound A 1 s reqs cached free []) :
    (∃ t b cached' free', s.rdsbufalloc = some (t, some b) ∧ Relinked s t ∧
      cached'.Sublist cached ∧ Sound A 0 t reqs cached' free' [b]) ∨
    free = [] ∧ (∀ b ∈ cached, 0 < (s.node b).refcnt) ∧ s.rdsbufalloc = some (s, none) := by
  rcases h.shape.rdsbufalloc_cases with ⟨b, free', rfl, halloc⟩ |
    ⟨b, l₁, l₂, rfl, rfl, hzero, halloc⟩ | ⟨hfree, hrefs, halloc⟩
  · refine Or.inl ⟨_, b, cached, free', halloc, ⟨_, _, _, rfl⟩, List.Sublist.refl _, ?_⟩
    exact
      { shape := h.shape.takeFree
        served := h.served.congr rfl rfl rfl fun _ => ⟨rfl, rfl, rfl, rfl⟩
        orders := h.orders.congr rfl rfl rfl fun _ _ => rfl
        available := fun hA => by
          have hunits := h.available hA
          rw [List.length_cons] at hunits
          change s.availsem.units + 0 = _
          omega
        inside := h.inside }
  · refine Or.inl ⟨_, b, l₁ ++ l₂, [], halloc, ⟨_, _, _, rfl⟩, ?_, h.unlink_cached hzero⟩
    exact List.Sublist.append_left (List.sublist_cons_self _ _) _
  · exact Or.inr ⟨hfree, hrefs, halloc⟩

theorem place {ph : Phase} (h : Sound A 0 s reqs cached free [b]) (hph : Allocates ph)
    (hout : s.Outside pid) (hin : pid ∉ s.availsem.inside) :
    Sound A 0 (s.place pid b ph) (reqs ++ [b]) cached free [] := by
  cases ph with
  | allocRead blk => exact h.putRead hout hin
  | allocWrite blk buff => exact h.putWrite hout hin buff
  | allocSync => exact h.putSync hout hin
  | idle => cases hph
  | receiving blk => cases hph
  | syncing => cases hph
  | deleting => cases hph

theorem place_panicked {ph : Phase} : (s.place pid b ph).panicked = s.panicked := by
  cases ph <;> rfl

theorem goOn_eq {ph : Phase} (hs : s.goOn pid ph = some s') :
    Allocates ph ∧ s.allocThen (fun s b => s.place pid b ph) = some s' := by
  cases ph with
  | allocRead blk => exact ⟨trivial, hs⟩
  | allocWrite blk buff => exact ⟨trivial, hs⟩
  | allocSync => exact ⟨trivial, hs⟩
  | idle => cases hs
  | receiving blk => cases hs
  | syncing => cases hs
  | deleting => cases hs

/-- A process that goes on in {lit}`rdsbufalloc` puts its request into the queue, or panics. -/
theorem goOn_cases {ph : Phase} (h : Sound A 1 s reqs cached free []) (hout : s.Outside pid)
    (hin : pid ∉ s.availsem.inside) (hs : s.goOn pid ph = some s') :
    (∃ t b cached' free', Relinked s t ∧ cached'.Sublist cached ∧
      Sound A 0 t reqs cached' free' [b] ∧ s' = t.place pid b ph ∧
      Sound A 0 s' (reqs ++ [b]) cached' free' []) ∨
    free = [] ∧ (∀ b ∈ cached, 0 < (s.node b).refcnt) ∧ s' = { s with panicked := true } := by
  obtain ⟨hph, hs⟩ := goOn_eq hs
  unfold Disk.allocThen at hs
  rcases h.alloc with ⟨t, b, cached', free', halloc, hlinks, hsub, hsound⟩ |
    ⟨hfree, hrefs, halloc⟩
  · rw [halloc] at hs
    cases hs
    obtain ⟨nx, pv, fr, ht⟩ := hlinks
    have hout' : t.Outside pid := by
      rw [ht]
      exact hout
    have hin' : pid ∉ t.availsem.inside := by
      rw [ht]
      exact hin
    exact Or.inl ⟨t, b, cached', free', ⟨nx, pv, fr, ht⟩, hsub, hsound, rfl,
      hsound.place hph hout' hin'⟩
  · rw [halloc] at hs
    cases hs
    exact Or.inr ⟨hfree, hrefs, rfl⟩

/-- A state that the invariant holds of, after a step from another one.  {lit}`R` says what
became of the queue. -/
def Next (A : Prop) (s s' : Disk) (R : List Ptr → Prop) : Prop :=
  (A → s'.panicked = s.panicked) ∧
    ∃ reqs cached free, R reqs ∧ Sound A 0 s' reqs cached free []

theorem Next.mono {R R' : List Ptr → Prop} (h : Next A s s' R) (hR : ∀ l, R l → R' l) :
    Next A s s' R' := by
  obtain ⟨hpan, reqs, cached, free, hr, hsound⟩ := h
  exact ⟨hpan, reqs, cached, free, hR reqs hr, hsound⟩

theorem goOn {ph : Phase} (h : Sound A 1 s reqs cached free [])
    (hspare : A → ¬(free = [] ∧ ∀ b ∈ cached, 0 < (s.node b).refcnt)) (hout : s.Outside pid)
    (hin : pid ∉ s.availsem.inside) (hs : s.goOn pid ph = some s') :
    Next A s s' (reqs <+: ·) := by
  rcases h.goOn_cases hout hin hs with ⟨t, b, cached', free', ⟨nx, pv, fr, ht⟩, -, -, hs', hsound⟩ |
    ⟨hfree, hrefs, rfl⟩
  · refine ⟨fun _ => ?_, _, _, _, List.prefix_append _ _, hsound⟩
    rw [hs', place_panicked, ht]
  · refine ⟨fun hA => absurd ⟨hfree, hrefs⟩ (hspare hA), reqs, cached, free, List.prefix_rfl, ?_⟩
    exact
      { shape := h.shape.congr rfl rfl rfl
        served := h.served.congr rfl rfl rfl fun _ => ⟨rfl, rfl, rfl, rfl⟩
        orders := h.orders.congr rfl rfl rfl fun _ _ => rfl
        available := fun hA => absurd ⟨hfree, hrefs⟩ (hspare hA)
        inside := h.inside }

theorem outside_of_idle (h : s.phase pid = .idle) : s.Outside pid := by
  constructor
  · intro k hk
    rw [h] at hk
    cases hk
  · intro hk
    rw [h] at hk
    cases hk

theorem not_inside_of_idle (h : Sound A d s reqs cached free held) (hidle : s.phase pid = .idle) :
    pid ∉ s.availsem.inside := by
  refine h.inside.not_mem fun hall => ?_
  rw [hidle] at hall
  exact hall

/-- A process asks for a buffer, and gets it at once or waits. -/
theorem waitAvail {ph : Phase} (h : Sound A 0 s reqs cached free []) (hidle : s.phase pid = .idle)
    (hph : Allocates ph) (hfits : A → s.availsem.Open → s.Fits)
    (hs : s.waitAvail pid ph = some s') : Next A s s' (reqs <+: ·) := by
  have hout := outside_of_idle hidle
  have hin := h.not_inside_of_idle hidle
  unfold Disk.waitAvail at hs
  by_cases hopen : s.availsem.Open
  · have henter : (s.availsem.enter pid).units = s.availsem.units - 1 :=
      Turnstile.units_enter_open hopen
    have hsame : (s.availsem.enter pid).inside = s.availsem.inside :=
      Turnstile.inside_enter_open hopen
    have hentered : Sound A 1 { s with availsem := s.availsem.enter pid } reqs cached free [] :=
      { shape := h.shape.congr rfl rfl rfl
        served := h.served.congr rfl rfl rfl fun _ => ⟨rfl, rfl, rfl, rfl⟩
        orders := h.orders.congr rfl rfl rfl fun _ _ => rfl
        available := fun hA => by
          have hunits := h.available hA
          change (s.availsem.enter pid).units + 1 = _
          omega
        inside := by
          unfold Inside
          rw [hsame]
          exact h.inside }
    simp only [if_pos hopen] at hs
    have hin' : pid ∉ (s.availsem.enter pid).inside := by
      rw [hsame]
      exact hin
    have hnext : Next A { s with availsem := s.availsem.enter pid } s' (reqs <+: ·) :=
      goOn hentered (fun hA => h.spare hA (hfits hA hopen)) hout hin' hs
    exact hnext
  · have henter : (s.availsem.enter pid).units = s.availsem.units :=
      Turnstile.units_enter_closed hopen
    simp only [if_neg hopen] at hs
    cases hs
    refine ⟨fun _ => rfl, reqs, cached, free, List.prefix_rfl, ?_⟩
    exact
      { shape := h.shape.congr rfl rfl rfl
        served := by
          refine h.served.setPhase (Or.inl hout)
            (?_ : (∀ c, ph ≠ .receiving c) ∧ ph ≠ .syncing) rfl rfl rfl fun p _ => rfl
          cases ph with
          | allocRead blk => exact ⟨nofun, nofun⟩
          | allocWrite blk buff => exact ⟨nofun, nofun⟩
          | allocSync => exact ⟨nofun, nofun⟩
          | idle => cases hph
          | receiving blk => cases hph
          | syncing => cases hph
          | deleting => cases hph
        orders := h.orders.congr rfl rfl rfl fun _ _ => rfl
        available := fun hA => by
          have hunits := h.available hA
          change (s.availsem.enter pid).units + 0 = _
          omega
        inside := h.inside.enterClosed hopen hin hph }

/-!
## The steps of the processes
-/

theorem rdsread (h : Sound A 0 s reqs cached free []) (hidle : s.phase pid = .idle)
    (hsafe : A → Affordable s (.read pid blk)) (hs : s.rdsread pid blk = some s') :
    Next A s s' (reqs <+: ·) := by
  unfold Disk.rdsread at hs
  split at hs
  · cases hs
    exact ⟨fun _ => rfl, reqs, cached, free, List.prefix_rfl, h⟩
  · obtain ⟨data, hhit, hs⟩ := Option.bind_eq_some_iff.mp hs
    cases data with
    | some data =>
        cases hs
        exact ⟨fun _ => rfl, reqs, cached, free, List.prefix_rfl,
          h.congr rfl rfl rfl rfl rfl rfl rfl rfl rfl fun _ => ⟨rfl, rfl, rfl, rfl⟩⟩
    | none =>
        have hmiss : s.Misses blk := by
          unfold Disk.Misses
          rw [hhit]
          rfl
        exact h.waitAvail hidle (show Allocates (.allocRead blk) from trivial)
          (fun hA => hsafe hA hmiss) hs

/-- A search of the cache ends at one of its buffers, or at its end. -/
theorem mem_of_seekCache (h : Shape s reqs cached free held) {P : RdBuff → Bool} {c : Ptr}
    (hc : s.seekCache P = some c) (hne : c ≠ .ctnext) : c ∈ cached := by
  have hfind := h.seekCache_eq P
  cases hf : cached.find? fun b => P (s.node b) with
  | none =>
      rw [hf] at hfind
      cases hc.symm.trans hfind
      exact absurd rfl hne
  | some e =>
      rw [hf] at hfind
      cases hc.symm.trans hfind
      exact List.mem_of_find?_eq_some hf

/-- The unit of a cached copy that becomes a write request is taken away, unless there is
none. -/
theorem reserve (h : Sound A 0 s reqs cached free []) (hopen : A → s.availsem.Open) :
    Sound A 1 s.reserve reqs cached free [] := by
  unfold Disk.reserve
  split
  · rename_i hcount
    exact
      { shape := h.shape
        served := h.served
        orders := h.orders
        available := fun hA => by
          have hpos : 0 < s.availsem.queue.count := hopen hA
          omega
        inside := h.inside }
  · rename_i hcount
    have hpos : s.availsem.Open := by
      change 0 < s.availsem.queue.count
      omega
    have hreset := Turnstile.units_reset_open (n := (s.availsem.queue.count - 1).toNat) hpos
    exact
      { shape := h.shape.congr rfl rfl rfl
        served := h.served.congr rfl rfl rfl fun _ => ⟨rfl, rfl, rfl, rfl⟩
        orders := h.orders.congr rfl rfl rfl fun _ _ => rfl
        available := fun hA => by
          have hunits := h.available hA
          change (s.availsem.reset (s.availsem.queue.count - 1).toNat).units + 1 = _
          omega
        inside := by
          unfold Inside
          rw [Turnstile.inside_reset_open hpos]
          exact h.inside }

theorem reserve_same : s.reserve.phase = s.phase ∧ s.reserve.panicked = s.panicked ∧
    s.reserve.node = s.node := by
  unfold Disk.reserve
  split <;> exact ⟨rfl, rfl, rfl⟩

theorem reserve_unlink : (s.unlink b).reserve = s.reserve.unlink b := by
  unfold Disk.reserve
  by_cases hcount : s.availsem.queue.count - 1 < 0
  · rw [if_pos hcount]
    exact if_pos hcount
  · rw [if_neg hcount]
    exact if_neg hcount

theorem rdswrite {buff : Block} (h : Sound A 0 s reqs cached free []) (hidle : s.phase pid = .idle)
    (hsafe : A → Affordable s (.write pid blk buff)) (hs : s.rdswrite pid blk buff = some s') :
    Next A s s' (reqs <+: ·) := by
  unfold Disk.rdswrite at hs
  split at hs
  · cases hs
    exact ⟨fun _ => rfl, reqs, cached, free, List.prefix_rfl, h⟩
  · obtain ⟨b, hb, hs⟩ := Option.bind_eq_some_iff.mp hs
    by_cases hend : b = .rtnext
    · rw [if_neg (not_not.mpr hend)] at hs
      obtain ⟨c, hc, hs⟩ := Option.bind_eq_some_iff.mp hs
      have hsafe' : A → s.SafeWrite c := fun hA => hsafe hA (by rw [hb, hend]) c hc
      unfold Disk.SafeWrite at hsafe'
      by_cases hreuse : s.Reuses c
      · simp only [if_pos hreuse] at hs hsafe'
        cases hs
        obtain ⟨l₁, l₂, rfl⟩ := List.append_of_mem (mem_of_seekCache h.shape hc hreuse.1)
        obtain ⟨hphase, hpan, hnode⟩ := reserve_same (s := s)
        have hres := h.reserve hsafe'
        have hzero : (s.reserve.node c).refcnt ≤ 0 := by
          rw [hnode]
          exact hreuse.2
        have hidle' : s.reserve.phase pid = .idle := (congrFun hphase pid).trans hidle
        rw [reserve_unlink]
        exact ⟨fun _ => hpan, _, _, _, List.prefix_append _ _, (hres.unlink_cached hzero).putWrite
          (outside_of_idle (s := s.reserve.unlink c) hidle')
          ((hres.unlink_cached hzero).not_inside_of_idle hidle') buff⟩
      · simp only [if_neg hreuse] at hs hsafe'
        exact h.waitAvail hidle (show Allocates (.allocWrite blk buff) from trivial) hsafe' hs
    · rw [if_pos hend] at hs
      cases hs
      refine ⟨fun _ => rfl, reqs, cached, free, List.prefix_rfl,
        h.congr rfl rfl rfl rfl rfl rfl rfl rfl rfl fun c => ?_⟩
      change (upd s.node b _ c).op = _ ∧ (upd s.node b _ c).refcnt = _ ∧
        (upd s.node b _ c).blknum = _ ∧ (upd s.node b _ c).pid = _
      by_cases hcb : c = b
      · rw [hcb, upd_self]
        exact ⟨rfl, rfl, rfl, rfl⟩
      · rw [upd_of_ne hcb]
        exact ⟨rfl, rfl, rfl, rfl⟩

theorem rdscontrolSync (h : Sound A 0 s reqs cached free []) (hidle : s.phase pid = .idle)
    (hsafe : A → Affordable s (.sync pid)) (hs : s.rdscontrolSync pid = some s') :
    Next A s s' (reqs <+: ·) := by
  unfold Disk.rdscontrolSync at hs
  split at hs
  · cases hs
    exact ⟨fun _ => rfl, reqs, cached, free, List.prefix_rfl, h⟩
  · exact h.waitAvail hidle (show Allocates .allocSync from trivial) hsafe hs

/-- A process that waits for nothing changes its phase to one in which it waits for nothing. -/
theorem setPhase {ph : Phase} (h : Sound A 0 s reqs cached free [])
    (hout : s.Outside pid ∨ s.phase pid = .syncing ∧ s.mail pid ≠ none)
    (hnot : ¬Allocates (s.phase pid)) (hph : (∀ k, ph ≠ .receiving k) ∧ ph ≠ .syncing)
    (hnode : s'.node = s.node) (hnext : s'.next = s.next) (hprev : s'.prev = s.prev)
    (hfree : s'.free = s.free) (hcomm : s'.comm = s.comm) (hreq : s'.reqsem = s.reqsem)
    (havail : s'.availsem = s.availsem) (hlog : s'.log = s.log)
    (hphase : s'.phase = upd s.phase pid ph) (hmail : ∀ p, p ≠ pid → s'.mail p = s.mail p) :
    Sound A 0 s' reqs cached free [] where
  shape := h.shape.congr hnext hprev hfree
  served := h.served.setPhase hout hph hnode hcomm hphase hmail
  orders := by
    have hwork : s'.atWork = s.atWork := by
      unfold Disk.atWork
      rw [hcomm]
    rw [hwork]
    exact h.orders.congr hreq hlog (by rw [hcomm]) fun c _ => by rw [hnode]
  available := by
    rw [havail]
    exact h.available
  inside := by
    rw [havail, hphase]
    exact h.inside.setPhase (h.inside.not_mem hnot) ph

theorem rdscontrolDel (h : Sound A 0 s reqs cached free []) (hidle : s.phase pid = .idle) :
    Next A s (s.rdscontrolDel pid) (reqs <+: ·) := by
  unfold Disk.rdscontrolDel
  split
  · exact ⟨fun _ => rfl, reqs, cached, free, List.prefix_rfl, h⟩
  · refine ⟨fun _ => rfl, reqs, cached, free, List.prefix_rfl, ?_⟩
    have hnot : ¬Allocates (s.phase pid) := by
      rw [hidle]
      exact id
    have hph : (∀ k, Phase.deleting ≠ .receiving k) ∧ Phase.deleting ≠ .syncing := ⟨nofun, nofun⟩
    exact h.setPhase (Or.inl (outside_of_idle hidle)) hnot hph rfl rfl rfl rfl rfl rfl rfl rfl rfl
      fun _ _ => rfl

/-- A process that was released goes on with its unit. -/
theorem resumed {ph : Phase} (h : Sound A 0 s reqs cached free [])
    (hmem : pid ∈ s.availsem.granted) (hfits : A → s.Fits) (hph : s.phase pid = ph)
    (hs : { s with availsem := s.availsem.resume pid }.goOn pid ph = some s') :
    Next A s s' (reqs <+: ·) := by
  have hresume : (s.availsem.resume pid).units = s.availsem.units - 1 :=
    Turnstile.units_resume hmem
  have hout : s.Outside pid := by
    constructor
    · intro blk hrecv
      rw [← hph, hrecv] at hs
      cases hs
    · intro hsync
      rw [← hph, hsync] at hs
      cases hs
  have hresumed : Sound A 1 { s with availsem := s.availsem.resume pid } reqs cached free [] :=
    { shape := h.shape.congr rfl rfl rfl
      served := h.served.congr rfl rfl rfl fun _ => ⟨rfl, rfl, rfl, rfl⟩
      orders := h.orders.congr rfl rfl rfl fun _ _ => rfl
      available := fun hA => by
        have hunits := h.available hA
        change (s.availsem.resume pid).units + 1 = _
        omega
      inside := (h.inside.resume hmem).1 }
  have hnext : Next A { s with availsem := s.availsem.resume pid } s' (reqs <+: ·) :=
    goOn hresumed (fun hA => h.spare hA (hfits hA)) hout (h.inside.resume hmem).2 hs
  exact hnext

/-- An unreferenced buffer goes from the cache to the free list. -/
theorem toFree {l₁ l₂ : List Ptr} (h : Sound A 0 s reqs (l₁ ++ b :: l₂) free [])
    (hzero : (s.node b).refcnt ≤ 0) :
    Sound A 0 ((s.unlink b).release b) reqs (l₁ ++ l₂) (b :: free) [] where
  shape := h.shape.unlink_cached.release
  served := by
    have hsame : Served ((s.unlink b).release b) reqs (l₁ ++ b :: l₂) :=
      h.served.congr rfl rfl rfl fun _ => ⟨rfl, rfl, rfl, rfl⟩
    refine hsame.uncache (fun c hc => by grind) fun c hc hpos => ?_
    have hne : c ≠ b := by
      rintro rfl
      exact absurd hzero (by exact Int.not_le.mpr hpos)
    grind
  orders := h.orders.congr rfl rfl rfl fun _ _ => rfl
  available := fun hA => by
    have hunits := h.available hA
    rw [List.length_append, List.length_cons] at hunits
    rw [List.length_append, List.length_cons]
    change s.availsem.units + _ = _
    omega
  inside := h.inside

/-- A reader finds its buffer in the cache, with one reference, and leaves it there or moves
it to the free list. -/
theorem rdsreadWake (h : Sound A 0 s reqs cached free []) (hp : s.phase pid = .receiving blk)
    (hm : s.mail pid = some (.buffer b)) (hs : s.rdsreadWake pid blk b = some s') :
    Next A s s' (reqs <+: ·) := by
  obtain ⟨c, hc, hbc, hone, -, -⟩ := h.served.told pid blk _ hp hm
  have hsame := Msg.buffer.inj hbc
  subst hsame
  obtain ⟨l₁, l₂, rfl⟩ := List.append_of_mem hc
  have hnd := h.shape.nodup
  have hb : b ∉ reqs := by grind
  have hbl : b ∉ l₁ := by grind
  have hlen := h.shape.length_eq
  have hpan : (s.takeBlock pid b).panicked = s.panicked := rfl
  unfold Disk.rdsreadWake at hs
  have hself : (s.takeBlock pid b).node b = { s.node b with refcnt := (s.node b).refcnt - 1 } :=
    upd_self
  have hzero : ((s.takeBlock pid b).node b).refcnt ≤ 0 := by
    rw [hself]
    change (s.node b).refcnt - 1 ≤ 0
    omega
  have hsound : Sound A 0 (s.takeBlock pid b) reqs (l₁ ++ b :: l₂) free [] :=
    { shape := h.shape.congr rfl rfl rfl
      served := h.served.wake hp hm hb (fun c hc => upd_of_ne hc) hzero rfl rfl rfl
      orders := by
        refine h.orders.congr rfl rfl rfl fun c hc => ?_
        have hne : c ≠ b := fun heq => hb (heq ▸ List.mem_of_mem_drop hc)
        exact congrArg RdBuff.request (upd_of_ne hne)
      available := h.available
      inside := by
        refine h.inside.setPhase (h.inside.not_mem fun hall => ?_) _
        rw [hp] at hall
        exact hall }
  generalize s.takeBlock pid b = t at hs hzero hsound hpan
  rw [List.length_append, List.length_cons] at hlen
  have hseek : seek t.next b (fun c => decide ((t.node c).blknum = blk)) (RD_BUFFS + 1)
      (t.next .chnext) = _ :=
    seek_seg (seg_append.mp hsound.shape.cached_seg).1 _ hbl (by omega)
  rw [if_pos hzero, hseek, Option.map_some] at hs
  split at hs
  · cases hs
    exact ⟨fun _ => hpan, _, _, _, List.prefix_rfl, hsound⟩
  · cases hs
    exact ⟨fun _ => hpan, _, _, _, List.prefix_rfl, hsound.toFree hzero⟩

/-- {lit}`rdsclose` moves a cache without references to the free list. -/
theorem emptyCache {n : Nat} (h : Sound A 0 s reqs cached free [])
    (hrefs : ∀ b ∈ cached, (s.node b).refcnt ≤ 0)
    (hs : Disk.emptyCache n (s.next .chnext) s = some s') :
    s'.panicked = s.panicked ∧ ∃ free, Sound A 0 s' reqs [] free [] := by
  induction cached generalizing s free n with
  | nil =>
      have hend : s.next .chnext = .ctnext := h.shape.cached_seg.1
      cases n with
      | zero => cases hs
      | succ n =>
          unfold Disk.emptyCache at hs
          rw [if_pos hend] at hs
          cases hs
          exact ⟨rfl, free, h⟩
  | cons b cached ih =>
      have hhead : s.next .chnext = b := h.shape.cached_seg.1
      have hne : b ≠ .ctnext := by
        rintro rfl
        exact layout.tail_not_node (q := .chnext) (Or.inr rfl) (h.shape.isBuffer (b := .ctnext)
          (by simp))
      cases n with
      | zero => cases hs
      | succ n =>
          unfold Disk.emptyCache at hs
          rw [if_neg (by rw [hhead]; exact hne), hhead] at hs
          simp only at hs
          have hfreed : Sound A 0 ((s.unlink b).release b) reqs ([] ++ cached) (b :: free) [] :=
            h.toFree (hrefs b List.mem_cons_self)
          generalize ht : (((s.unlink b).release b).setNode b
            { ((s.unlink b).release b).node b with status := .invalid }) = t at hs
          have hnode : ∀ c, (t.node c).op = (s.node c).op ∧
              (t.node c).refcnt = (s.node c).refcnt ∧ (t.node c).blknum = (s.node c).blknum ∧
              (t.node c).pid = (s.node c).pid := by
            intro c
            rw [← ht]
            change (upd s.node b _ c).op = _ ∧ (upd s.node b _ c).refcnt = _ ∧
              (upd s.node b _ c).blknum = _ ∧ (upd s.node b _ c).pid = _
            by_cases hcb : c = b
            · rw [hcb, upd_self]
              exact ⟨rfl, rfl, rfl, rfl⟩
            · rw [upd_of_ne hcb]
              exact ⟨rfl, rfl, rfl, rfl⟩
          have hset : Sound A 0 t reqs cached (b :: free) [] := by
            subst ht
            exact hfreed.congr rfl rfl rfl rfl rfl rfl rfl rfl rfl hnode
          -- the loop goes on behind the buffer that was moved
          have hstart : s.next b = t.next .chnext := by
            have hold := (h.shape.family.neighbours (q := .chnext) (Or.inr rfl)
              (show lists reqs (b :: cached) .chnext = [] ++ b :: cached from rfl)).2
            rw [hold, hset.shape.cached_seg.next_eq_headOr]
            rfl
          rw [hstart] at hs
          obtain ⟨hpan, hlast⟩ := ih hset (fun c hc => by
            rw [(hnode c).2.1]
            exact hrefs c (List.mem_cons_of_mem b hc)) hs
          have hpan' : t.panicked = s.panicked := by
            rw [← ht]
            rfl
          exact ⟨hpan.trans hpan', hlast⟩

theorem deleted {reply : Option (UInt32 → Block)} (h : Sound A 0 s reqs cached free [])
    (hp : s.phase pid = .deleting) (horderly : Orderly s (.deleted pid reply))
    (hs : s.deleted pid reply = some s') : Next A s s' (reqs <+: ·) := by
  have hout : s.Outside pid := by
    unfold Disk.Outside
    rw [hp]
    exact ⟨nofun, nofun⟩
  have hnot : ¬Allocates (s.phase pid) := by
    rw [hp]
    exact id
  have hph : (∀ k, Phase.idle ≠ .receiving k) ∧ Phase.idle ≠ .syncing := ⟨nofun, nofun⟩
  cases reply with
  | none =>
      cases hs
      exact ⟨fun _ => rfl, reqs, cached, free, List.prefix_rfl, h.setPhase (Or.inl hout) hnot hph
        rfl rfl rfl rfl rfl rfl rfl rfl rfl fun _ _ => rfl⟩
  | some server =>
      have hmoved : Sound A 0 { s.setPhase pid .idle with server := server } reqs cached free [] :=
        h.setPhase (Or.inl hout) hnot hph rfl rfl rfl rfl rfl rfl rfl rfl rfl fun _ _ => rfl
      change { s.setPhase pid .idle with server := server }.rdsclose = some s' at hs
      unfold Disk.rdsclose at hs
      split at hs
      · rename_i hcloses
        obtain ⟨t, ht, hs⟩ := Option.map_eq_some_iff.mp hs
        have hnone := horderly rfl hcloses
        rw [referenced_eq h.shape] at hnone
        have hrefs : ∀ b ∈ cached, (s.node b).refcnt ≤ 0 := fun b hb => by
          have hall := List.filter_eq_nil_iff.mp (List.length_eq_zero_iff.mp hnone) b hb
          exact Int.not_lt.mp fun hpos => hall (decide_eq_true hpos)
        obtain ⟨hpan, free', hsound⟩ := hmoved.emptyCache hrefs ht
        cases hs
        exact ⟨fun _ => hpan, reqs, [], free', List.prefix_rfl,
          hsound.congr rfl rfl rfl rfl rfl rfl rfl rfl rfl fun _ => ⟨rfl, rfl, rfl, rfl⟩⟩
      · cases hs
        exact ⟨fun _ => rfl, reqs, cached, free, List.prefix_rfl, hmoved⟩

/-!
## The steps of the communication process
-/

/-- What {lit}`rdsprocess` does to the queue: nothing, or it takes the first request out of
it; one to write it is about to send then. -/
def Taken (s s' : Disk) (reqs reqs' : List Ptr) : Prop :=
  reqs' = reqs ∨ ∃ b, reqs = b :: reqs' ∧
    ((s.node b).op = .write → s'.comm = .writing (s.node b).blknum (s.node b).block)

/-- A process is sent a message, at most. -/
theorem send_of_none {m : Msg} (h : s.mail pid = none) :
    s.send pid m = { s with mail := upd s.mail pid (some m) } := by
  unfold Disk.send
  rw [h]
  rfl

theorem atWork_of {c : Comm} (hcomm : s.comm = c) : s.atWork = c.atWork := congrArg _ hcomm

theorem take_read (hhead : s.next .rhnext = b) (hop : (s.node b).op = .read) :
    s.take = (s.logTaken (s.node b).request).setComm (.reading b) := by
  have hkept : ((s.logTaken (s.node b).request).node b).op = .read := hop
  unfold Disk.take
  simp only [hhead, hkept]

theorem take_write (hhead : s.next .rhnext = b) (hop : (s.node b).op = .write) :
    s.take = (s.logTaken (s.node b).request).takeWrite b := by
  have hkept : ((s.logTaken (s.node b).request).node b).op = .write := hop
  unfold Disk.take
  simp only [hhead, hkept]

theorem take_sync (hhead : s.next .rhnext = b) (hop : (s.node b).op = .sync) :
    s.take = ((s.logTaken (s.node b).request).send (s.node b).pid .ok).setComm (.synced b) := by
  have hkept : ((s.logTaken (s.node b).request).node b).op = .sync := hop
  unfold Disk.take
  simp only [hhead, hkept]
  rfl

/-- {lit}`rdsprocess` has passed its wait, and so it finds a request. -/
theorem take (h : Sound A 0 s reqs cached free []) {T : Turnstile Unit}
    (hcomm : s.comm = .ready ∨ s.comm = .waiting) (hunits : T.units = s.reqsem.units - 1)
    (hinside : T.inside = []) :
    Next A s { s with reqsem := T }.take (Taken s { s with reqsem := T }.take reqs) := by
  have hsynced : ∀ c, s.comm ≠ .synced c := by
    rcases hcomm with hc | hc <;> rw [hc] <;> exact nofun
  have hanswered : ∀ c, s.comm ≠ .answered c := by
    rcases hcomm with hc | hc <;> rw [hc] <;> exact nofun
  have hwork : s.atWork = 0 := by
    rcases hcomm with hc | hc <;> exact atWork_of hc
  have horders := h.orders
  have hserved := h.served
  have hnonneg := T.units_nonneg
  rw [hwork, List.drop_zero] at horders
  have hpend := horders.pending
  cases reqs with
  | nil =>
      rw [List.length_nil] at hpend
      omega
  | cons b rest =>
      have hnd := h.shape.nodup
      have hb : b ∉ rest := by grind
      have hbc : b ∉ cached := by grind
      have hhead : s.next .rhnext = b := h.shape.reqs_seg.1
      have haw := hserved.requested b List.mem_cons_self (hsynced b)
      cases hop : (s.node b).op with
      | read =>
          have htake : { s with reqsem := T }.take =
              ({ s with reqsem := T }.logTaken (s.node b).request).setComm (.reading b) :=
            take_read hhead hop
          rw [htake]
          refine ⟨fun _ => rfl, b :: rest, cached, free, Or.inl rfl, ?_⟩
          exact
            { shape := h.shape.congr rfl rfl rfl
              served := hserved.setComm hsynced hanswered nofun ⟨rfl, hop⟩ rfl rfl rfl
              orders := horders.take hunits hinside rfl rfl fun _ _ => rfl
              available := h.available
              inside := h.inside }
      | write =>
          have htake : { s with reqsem := T }.take =
              ({ s with reqsem := T }.logTaken (s.node b).request).takeWrite b :=
            take_write hhead hop
          have hsignal : (s.availsem.signal 1).units = s.availsem.units + 1 :=
            Turnstile.units_signal
          have hunlink : Shape (s.unlink b) ([] ++ rest) cached free [b] :=
            Shape.unlink_request h.shape
          rw [htake]
          refine ⟨fun _ => rfl, rest, b :: cached, free, Or.inr ⟨b, rfl, fun _ => rfl⟩, ?_⟩
          exact
            { shape := hunlink.cache.congr rfl rfl rfl
              served := hserved.takeWrite hb hbc hsynced hanswered rfl (fun c hc => upd_of_ne hc)
                (congrArg RdBuff.refcnt upd_self) rfl rfl
              orders := horders.take hunits hinside rfl rfl fun c hc => congrArg RdBuff.request
                (upd_of_ne fun heq => hb (heq ▸ hc))
              available := fun hA => by
                have havail := h.available hA
                change (s.availsem.signal 1).units + 0 = _
                rw [List.length_cons]
                omega
              inside := h.inside.signal 1 }
      | sync =>
          have htake : { s with reqsem := T }.take =
              (({ s with reqsem := T }.logTaken (s.node b).request).send (s.node b).pid .ok).setComm
                (.synced b) :=
            take_sync hhead hop
          have hmail : ({ s with reqsem := T }.logTaken (s.node b).request).mail (s.node b).pid =
              none := (hserved.asked List.mem_cons_self (hsynced b) (Or.inr hop)).1
          rw [htake, send_of_none hmail]
          refine ⟨fun _ => rfl, b :: rest, cached, free, Or.inl rfl, ?_⟩
          exact
            { shape := h.shape.congr rfl rfl rfl
              served := hserved.takeSync hop hsynced hanswered rfl rfl rfl fun p hp => upd_of_ne hp
              orders := horders.take hunits hinside rfl rfl fun _ _ => rfl
              available := h.available
              inside := h.inside }
      | none =>
          unfold Disk.Awaits at haw
          rw [hop] at haw
          exact haw.elim

theorem rdsprocess (h : Sound A 0 s reqs cached free []) (horderly : Orderly s .comm)
    (hs : s.rdsprocess = some s') : Next A s s' (Taken s s' reqs) := by
  have hserved := h.served
  have horders := h.orders
  have hnd := h.shape.nodup
  have hsignal : (s.availsem.signal 1).units = s.availsem.units + 1 := Turnstile.units_signal
  unfold Disk.rdsprocess at hs
  cases hcomm : s.comm with
  | ready =>
      have hwaits := horders.waiting
      rw [hcomm] at hs hwaits
      by_cases hopen : s.reqsem.Open
      · simp only [if_pos hopen] at hs
        cases hs
        refine h.take (Or.inl hcomm) (Turnstile.units_enter_open hopen) ?_
        rw [Turnstile.inside_enter_open hopen]
        exact List.length_eq_zero_iff.mp hwaits
      · have hunits : (s.reqsem.enter ()).units = s.reqsem.units :=
          Turnstile.units_enter_closed hopen
        have hlen := Turnstile.length_enter_closed (p := ()) hopen
        simp only [if_neg hopen] at hs
        cases hs
        have hquiet : (∀ c, s.comm ≠ .synced c) ∧ ∀ c, s.comm ≠ .answered c := by
          rw [hcomm]
          exact ⟨nofun, nofun⟩
        rw [atWork_of hcomm] at horders
        refine ⟨fun _ => rfl, reqs, cached, free, Or.inl rfl, ?_⟩
        exact
          { shape := h.shape.congr rfl rfl rfl
            served := hserved.setComm hquiet.1 hquiet.2 nofun trivial rfl rfl rfl
            orders :=
              { pending := by
                  change (s.reqsem.enter ()).units + s.log.syncs = _
                  rw [hunits]
                  exact horders.pending
                logged := horders.logged
                waiting := by
                  rw [hwaits] at hlen
                  exact hlen }
            available := h.available
            inside := h.inside }
  | waiting =>
      have hwaits := horders.waiting
      rw [hcomm] at hs hwaits
      obtain ⟨hmem, hs⟩ := Option.ite_none_right_eq_some.mp hs
      have hlen := Turnstile.length_resume hmem
      have hone : s.reqsem.inside.length = 1 := hwaits
      cases hs
      exact h.take (Or.inr hcomm) (Turnstile.units_resume hmem)
        (List.length_eq_zero_iff.mp (by omega))
  | reading b =>
      rw [hcomm] at hs
      cases hs
      obtain ⟨rest, rfl, hop⟩ := head_of_current hserved (Or.inl hcomm)
      have hb : b ∉ rest := by grind
      have hunlink : Shape (s.unlink b) ([] ++ rest) cached free [b] :=
        Shape.unlink_request h.shape
      have hnode : ∀ c, c ≠ b → (s.readDone b).node c = s.node c := fun c hc =>
        (upd_of_ne hc).trans (upd_of_ne hc)
      have hself : (s.readDone b).node b =
          { s.node b with block := s.server s.msgBlk, refcnt := 1 } := by
        refine upd_self.trans ?_
        change { upd s.node b { s.node b with block := s.server s.msgBlk } b with refcnt := 1 } = _
        rw [upd_self]
      rw [atWork_of hcomm] at horders
      refine ⟨fun _ => rfl, rest, b :: cached, free, Or.inr ⟨b, rfl, fun heq => absurd heq hop⟩, ?_⟩
      exact
        { shape := hunlink.cache.congr rfl rfl rfl
          served := hserved.readDone hb (by grind) hcomm rfl hnode (by rw [hself])
            (by rw [hself]) (by rw [hself]) rfl rfl
          orders := by
            refine horders.congr rfl rfl (by rw [hcomm]; rfl) fun c hc => ?_
            rw [hnode c fun heq => hb (heq ▸ hc)]
          available := fun hA => by
            have havail := h.available hA
            change (s.availsem.signal 1).units + 0 = _
            rw [List.length_cons]
            omega
          inside := h.inside.signal 1 }
  | answered b =>
      have hmail := (hserved.answered b hcomm).2.2.2.1
      rw [hcomm] at hs
      cases hs
      rw [send_of_none hmail]
      rw [atWork_of hcomm] at horders
      refine ⟨fun _ => rfl, reqs, cached, free, Or.inl rfl, ?_⟩
      exact
        { shape := h.shape.congr rfl rfl rfl
          served := hserved.tell hcomm rfl rfl rfl rfl
          orders := horders.congr rfl rfl (by rw [hcomm]; rfl) fun _ _ => rfl
          available := h.available
          inside := h.inside }
  | told b =>
      have hquiet : (∀ c, s.comm ≠ .synced c) ∧ ∀ c, s.comm ≠ .answered c := by
        rw [hcomm]
        exact ⟨nofun, nofun⟩
      have hnone : s.sameBlock b = some .rtnext := by
        refine horderly b ?_
        rw [hcomm]
        rfl
      rw [hcomm] at hs
      change s.tellOther b = some s' at hs
      unfold Disk.tellOther at hs
      rw [hnone, Option.map_some, if_pos rfl] at hs
      cases hs
      rw [atWork_of hcomm] at horders
      refine ⟨fun _ => rfl, reqs, cached, free, Or.inl rfl, ?_⟩
      exact
        { shape := h.shape.congr rfl rfl rfl
          served := hserved.setComm hquiet.1 hquiet.2 nofun trivial rfl rfl rfl
          orders := horders.congr rfl rfl (by rw [hcomm]; rfl) fun _ _ => rfl
          available := h.available
          inside := h.inside }
  | matched b q =>
      have hcur := hserved.current
      unfold Disk.Current at hcur
      rw [hcomm] at hcur
      exact hcur.elim
  | writing blk data =>
      have hquiet : (∀ c, s.comm ≠ .synced c) ∧ ∀ c, s.comm ≠ .answered c := by
        rw [hcomm]
        exact ⟨nofun, nofun⟩
      rw [hcomm] at hs
      cases hs
      rw [atWork_of hcomm] at horders
      refine ⟨fun _ => rfl, reqs, cached, free, Or.inl rfl, ?_⟩
      exact
        { shape := h.shape.congr rfl rfl rfl
          served := hserved.setComm hquiet.1 hquiet.2 nofun trivial rfl rfl rfl
          orders := horders.congr rfl rfl (by rw [hcomm]; rfl) fun _ _ => rfl
          available := h.available
          inside := h.inside }
  | synced b =>
      rw [hcomm] at hs
      cases hs
      obtain ⟨rest, rfl, hop⟩ := head_of_current hserved (Or.inr hcomm)
      have hunlink : Shape (s.unlink b) ([] ++ rest) cached free [b] :=
        Shape.unlink_request h.shape
      rw [atWork_of hcomm] at horders
      refine ⟨fun _ => rfl, rest, cached, b :: free, Or.inr ⟨b, rfl, fun heq => absurd heq hop⟩, ?_⟩
      exact
        { shape := hunlink.release.congr rfl rfl rfl
          served := hserved.syncDone (by grind) hcomm rfl rfl rfl rfl
          orders := horders.congr rfl rfl (by rw [hcomm]; rfl) fun _ _ => rfl
          available := fun hA => by
            have havail := h.available hA
            change (s.availsem.signal 1).units + 0 = _
            rw [List.length_cons]
            omega
          inside := h.inside.signal 1 }

/-- A process adds to the queue only. -/
theorem step_process {l : Label} (h : Sound A 0 s reqs cached free []) (horderly : Orderly s l)
    (hsafe : A → Affordable s l) (hl : l ≠ .comm) (hs : s.step l = some s') :
    Next A s s' (reqs <+: ·) := by
  unfold Disk.step at hs
  obtain ⟨-, hs⟩ := Option.ite_none_left_eq_some.mp hs
  cases l with
  | read pid blk =>
      simp only at hs
      split at hs
      · rename_i hidle
        exact h.rdsread hidle hsafe hs
      · cases hs
  | write pid blk buff =>
      simp only at hs
      split at hs
      · rename_i hidle
        exact h.rdswrite hidle hsafe hs
      · cases hs
  | sync pid =>
      simp only at hs
      split at hs
      · rename_i hidle
        exact h.rdscontrolSync hidle hsafe hs
      · cases hs
  | delete pid =>
      simp only at hs
      split at hs
      · rename_i hidle
        cases hs
        exact h.rdscontrolDel hidle
      · cases hs
  | deleted pid reply =>
      simp only at hs
      split at hs
      · rename_i hp
        exact h.deleted hp horderly hs
      · cases hs
  | alloc pid =>
      obtain ⟨hmem, hs⟩ := Option.ite_none_right_eq_some.mp hs
      exact h.resumed hmem hsafe rfl hs
  | receive pid =>
      simp only at hs
      split at hs
      · rename_i blk b hp hm
        exact h.rdsreadWake hp hm hs
      · rename_i m hp hm
        cases hs
        have hidle : (∀ c, Phase.idle ≠ .receiving c) ∧ Phase.idle ≠ .syncing := ⟨nofun, nofun⟩
        have hsome : s.mail pid ≠ none := by
          rw [hm]
          exact nofun
        have hnot : ¬Allocates (s.phase pid) := by
          rw [hp]
          exact id
        exact ⟨fun _ => rfl, reqs, cached, free, List.prefix_rfl, h.setPhase (Or.inr ⟨hp, hsome⟩)
          hnot hidle rfl rfl rfl rfl rfl rfl rfl rfl rfl fun p hpne => upd_of_ne hpne⟩
      · cases hs
  | comm => exact absurd rfl hl

theorem step_comm (h : Sound A 0 s reqs cached free []) (horderly : Orderly s .comm)
    (hs : s.step .comm = some s') : Next A s s' (Taken s s' reqs) := by
  unfold Disk.step at hs
  obtain ⟨-, hs⟩ := Option.ite_none_left_eq_some.mp hs
  exact h.rdsprocess horderly hs

/-- Every orderly step keeps the invariant, and nobody panics when it is affordable. -/
theorem step {l : Label} (h : Sound A 0 s reqs cached free []) (horderly : Orderly s l)
    (hsafe : A → Affordable s l) (hs : s.step l = some s') : Next A s s' fun _ => True := by
  by_cases hl : l = .comm
  · subst hl
    exact (h.step_comm horderly hs).mono fun _ _ => trivial
  · exact (h.step_process horderly hsafe hl hs).mono fun _ _ => trivial

end Sound

end Rds
end BbbXinu
