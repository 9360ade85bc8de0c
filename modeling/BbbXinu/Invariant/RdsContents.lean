import BbbXinu.Lib.WriteBack
import BbbXinu.Invariant.RdsRuns

/-!
# The contents of the remote disk

What the blocks of the disk hold is in the request queue, in the cache, in a message, or on
the server.  An account keeps what the blocks hold, and what they have held since each
process has called {lit}`rdsread`.
-/

namespace BbbXinu
namespace Rds

open LinkedLists WriteBack

/-!
## Accounts
-/

structure Account where
  content : UInt32 → Block
  seen : Int → List (UInt32 → Block)

namespace Account

/-- A block has held some data since a process called {lit}`rdsread`. -/
def Saw (a : Account) (pid : Int) (blk : UInt32) (data : Block) : Prop :=
  ∃ c ∈ a.seen pid, c blk = data

/-- A block is written. -/
def put (a : Account) (blk : UInt32) (data : Block) : Account where
  content := upd a.content blk data
  seen := fun p => a.seen p ++ [upd a.content blk data]

/-- A block is written, if there is one. -/
def putSome (a : Account) : Option (UInt32 × Block) → Account
  | some (blk, data) => a.put blk data
  | none => a

/-- A process calls {lit}`rdsread`. -/
def call (a : Account) (pid : Int) : Account :=
  { a with seen := upd a.seen pid [a.content] }

variable {a : Account} {pid p : Int} {blk k : UInt32} {data x : Block}

theorem Saw.put (h : a.Saw p k x) : (a.put blk data).Saw p k x := by
  obtain ⟨c, hc, hx⟩ := h
  exact ⟨c, List.mem_append_left _ hc, hx⟩

theorem latest_put : (a.put blk data).content ∈ (a.put blk data).seen p :=
  List.mem_append_right _ List.mem_cons_self

theorem Saw.call (h : a.Saw p k x) (hp : p ≠ pid) : (a.call pid).Saw p k x := by
  obtain ⟨c, hc, hx⟩ := h
  refine ⟨c, ?_, hx⟩
  change c ∈ upd a.seen pid [a.content] p
  rw [upd_of_ne hp]
  exact hc

theorem latest_call (h : a.content ∈ a.seen p) : (a.call pid).content ∈ (a.call pid).seen p := by
  change a.content ∈ upd a.seen pid [a.content] p
  by_cases hp : p = pid
  · rw [hp, upd_self]
    exact List.mem_cons_self
  · rw [upd_of_ne hp]
    exact h

end Account

def Phase.isIdle : Phase → Bool
  | .idle => true
  | _ => false

/-- The block for which a process waits in {lit}`rdsbufalloc`. -/
def Phase.block : Phase → Option UInt32
  | .allocRead blk => some blk
  | .allocWrite blk _ => some blk
  | _ => none

/-- What a process waits to write. -/
def Phase.writes : Phase → Option (UInt32 × Block)
  | .allocWrite blk buff => some (blk, buff)
  | _ => none

namespace Disk

/-- The block that {lit}`rdswrite` has written when it returns in a step. -/
def written (s : Disk) (l : Label) (s' : Disk) : Option (UInt32 × Block) :=
  match l with
  | .write pid blk buff =>
      if s.state = .opened ∧ s'.panicked = false ∧ (s'.phase pid).isIdle = true then
        some (blk, buff)
      else none
  | .alloc pid =>
      if s'.panicked = false then (s.phase pid).writes else none
  | _ => none

/-- The process and the block whose {lit}`rdsread` returns in a step with {lit}`OK`. -/
def returned (s : Disk) (l : Label) (s' : Disk) : Option (Int × UInt32) :=
  match l with
  | .read pid blk =>
      if s.state = .opened ∧ s'.panicked = false ∧ (s'.phase pid).isIdle = true then
        some (pid, blk)
      else none
  | .receive pid =>
      match s.phase pid with
      | .receiving blk => some (pid, blk)
      | _ => none
  | _ => none

end Disk

/-- What an account makes of a step. -/
def record (a : Account) (s : Disk) (l : Label) (s' : Disk) : Account :=
  match s.written l s' with
  | some (blk, data) => a.put blk data
  | none =>
      match l with
      | .read pid _ => a.call pid
      | _ => a

/-!
## Traps
-/

namespace Disk

/-- {lit}`rdsprocess` gets past its wait. -/
def Passes (s : Disk) : Prop :=
  match s.comm with
  | .ready => s.reqsem.Open
  | .waiting => () ∈ s.reqsem.granted
  | _ => False

instance (s : Disk) : Decidable s.Passes :=
  match h : s.comm with
  | .ready => decidable_of_iff s.reqsem.Open (by unfold Passes; rw [h])
  | .waiting => decidable_of_iff (() ∈ s.reqsem.granted) (by unfold Passes; rw [h])
  | .reading _ | .answered _ | .told _ | .matched _ _ | .writing _ _ | .synced _ =>
      isFalse (by unfold Passes; rw [h]; exact id)

/-- No request to write a block is queued, and no valid copy of it is cached. -/
def NoData (s : Disk) (blk : UInt32) : Prop :=
  s.pendingWrite blk = some .rtnext ∧
    (s.seekCache fun n => decide (n.blknum = blk ∧ n.status = .valid)) = some .ctnext

instance (s : Disk) (blk : UInt32) : Decidable (s.NoData blk) :=
  inferInstanceAs (Decidable (_ ∧ _))

end Disk

/-- A step of {lit}`rdsread`, {lit}`rdswrite` or {lit}`rdsprocess` that is orderly, where a
process that waited for a buffer finds no data for its block when it goes on, and the
message that {lit}`rdsprocess` sends to read a block has the number of the block. -/
def Clear (s : Disk) : Label → Prop
  | .read _ _ | .write _ _ _ | .receive _ => True
  | .alloc pid => ∀ blk ∈ (s.phase pid).block, s.NoData blk
  | .comm => Orderly s .comm ∧
      (s.Passes → (s.node (s.next .rhnext)).op = .read →
        s.msgBlk = (s.node (s.next .rhnext)).blknum)
  | .sync _ | .delete _ | .deleted _ _ => False

instance (s : Disk) : DecidablePred (Clear s)
  | .read _ _ | .write _ _ _ | .receive _ => inferInstanceAs (Decidable True)
  | .alloc _ => inferInstanceAs (Decidable (∀ _ ∈ _, _))
  | .comm => inferInstanceAs (Decidable (_ ∧ (_ → _ → _)))
  | .sync _ | .delete _ | .deleted _ _ => inferInstanceAs (Decidable False)

theorem Clear.orderly {s : Disk} {l : Label} (h : Clear s l) : Orderly s l := by
  cases l with
  | comm => exact h.1
  | deleted pid reply => exact h.elim
  | read pid blk => trivial
  | write pid blk buff => trivial
  | sync pid => trivial
  | delete pid => trivial
  | alloc pid => trivial
  | receive pid => trivial

/-!
## The invariant
-/

/-- A request, or a cached copy: it has data for its block unless it is a request to read, or a
buffer that came from one. -/
def RdBuff.entry (n : RdBuff) : Entry UInt32 Block :=
  { key := n.blknum
    data := if n.status = .valid then some n.block else none }

def Disk.entries (s : Disk) (l : List Ptr) : List (Entry UInt32 Block) :=
  l.map fun b => (s.node b).entry

/-- What the server has, with the message that is on its way. -/
def Disk.stored (s : Disk) : UInt32 → Block :=
  match s.comm with
  | .writing blk data => upd s.server blk data
  | _ => s.server

/-- The queue, the cache and the server hold the content of the disk, and readers get what
their block held since they called. -/
structure Faithful (a : Account) (s : Disk) (reqs cached : List Ptr) : Prop where
  opened : s.state = .opened
  plain : ∀ p, s.phase p ≠ .allocSync
  coherent : Coherent a.content s.stored (s.entries reqs) (s.entries cached)
  kinds : ∀ b ∈ reqs, (s.node b).op = .read ∧ (s.node b).status = .invalid ∨
    (s.node b).op = .write ∧ (s.node b).status = .valid
  unreferenced : ∀ b ∈ cached, (s.node b).status = .valid → (s.node b).refcnt ≤ 0
  latest : ∀ p, a.content ∈ a.seen p
  asked : ∀ b ∈ reqs, (s.node b).op = .read →
    a.Saw (s.node b).pid (s.node b).blknum (s.stored (s.node b).blknum)
  reading : ∀ b, s.comm = .reading b → s.msgBlk = (s.node b).blknum
  answered : ∀ b, s.comm = .answered b →
    a.Saw (s.node b).pid (s.node b).blknum (s.node b).block
  told : ∀ p blk b, s.phase p = .receiving blk → s.mail p = some (.buffer b) →
    a.Saw p blk (s.node b).block

section

variable {s s' : Disk} {l : List Ptr} {b : Ptr} {n : RdBuff}

theorem entries_congr (h : ∀ c ∈ l, (s'.node c).entry = (s.node c).entry) :
    s'.entries l = s.entries l :=
  List.map_congr_left h

theorem entry_read (h : n.status = .invalid) : n.entry = { key := n.blknum, data := none } := by
  unfold RdBuff.entry
  rw [h]
  rfl

theorem entry_write (h : n.status = .valid) :
    n.entry = { key := n.blknum, data := some n.block } := by
  unfold RdBuff.entry
  rw [if_pos h]

theorem holds_entry {k : UInt32} : n.entry.Holds k ↔ n.status = .valid ∧ n.blknum = k := by
  cases hst : n.status with
  | valid =>
      rw [entry_write hst]
      exact ⟨fun h => ⟨rfl, h.2⟩, fun h => ⟨rfl, h.2⟩⟩
  | invalid =>
      rw [entry_read hst]
      exact ⟨fun h => absurd h.1 nofun, fun h => absurd h.1 nofun⟩

end

namespace Faithful

variable {a a' : Account} {s s' : Disk} {reqs cached cached' rest l₁ l₂ : List Ptr} {b : Ptr}
  {n : RdBuff} {pid : Int} {blk : UInt32} {data : Block}

/-!
## Calls
-/

/-- A process that waits for no message calls {lit}`rdsread`. -/
theorem call (h : Faithful a s reqs cached) (hserved : Served s reqs cached)
    (hidle : s.phase pid = .idle) : Faithful (a.call pid) s reqs cached := by
  have hne : ∀ p k, s.phase p = .receiving k → p ≠ pid := by
    rintro p k hp rfl
    rw [hidle] at hp
    cases hp
  exact
    { opened := h.opened
      plain := h.plain
      coherent := h.coherent
      kinds := h.kinds
      unreferenced := h.unreferenced
      latest := fun p => Account.latest_call (h.latest p)
      asked := fun b hb hop => by
        have hcomm : s.comm ≠ .synced b := by
          intro hc
          have hcur := hserved.current
          unfold Disk.Current at hcur
          rw [hc] at hcur
          rw [hcur.2] at hop
          cases hop
        have haw := hserved.requested b hb hcomm
        unfold Disk.Awaits at haw
        rw [hop] at haw
        exact (h.asked b hb hop).call (hne _ _ haw.1)
      reading := h.reading
      answered := fun b hb => (h.answered b hb).call (hne _ _ (hserved.answered b hb).2.2.1)
      told := fun p k b hp hm => (h.told p k b hp hm).call (hne p k hp) }

/-- Links, semaphores, the data that was returned and the log do not matter, and a process
may go to another phase in which it has no message. -/
theorem congr (h : Faithful a s reqs cached) (hstate : s'.state = s.state)
    (hnode : s'.node = s.node) (hcomm : s'.comm = s.comm) (hserver : s'.server = s.server)
    (hmsg : s'.msgBlk = s.msgBlk) (hplain : ∀ p, s'.phase p ≠ .allocSync)
    (htold : ∀ p k c, s'.phase p = .receiving k → s'.mail p = some (.buffer c) →
      s.phase p = .receiving k ∧ s.mail p = some (.buffer c)) :
    Faithful a s' reqs cached := by
  have hstored : s'.stored = s.stored := by
    unfold Disk.stored
    rw [hcomm, hserver]
  exact
    { opened := hstate.trans h.opened
      plain := hplain
      coherent := by
        unfold Disk.entries
        rw [hstored, hnode]
        exact h.coherent
      kinds := by
        rw [hnode]
        exact h.kinds
      unreferenced := by
        rw [hnode]
        exact h.unreferenced
      latest := h.latest
      asked := by
        rw [hnode, hstored]
        exact h.asked
      reading := by
        rw [hcomm, hmsg, hnode]
        exact h.reading
      answered := by
        rw [hcomm, hnode]
        exact h.answered
      told := fun p k c hp hm => by
        obtain ⟨hp, hm⟩ := htold p k c hp hm
        rw [hnode]
        exact h.told p k c hp hm }

/-- Buffers may leave the cache. -/
theorem uncache (h : Faithful a s reqs cached) (hsub : cached'.Sublist cached) :
    Faithful a s reqs cached' :=
  { h with
    coherent := h.coherent.evict (hsub.map _)
    unreferenced := fun b hb => h.unreferenced b (hsub.subset hb) }

/-!
## Putting a request
-/

/-- The parts of a state in which a request has been put are what they should be, if the content
is. -/
theorem put (h : Faithful a s reqs cached) (hserved : Served s reqs cached)
    (hserved' : Served s' (reqs ++ [b]) cached')
    (hsub : cached'.Sublist cached) (hb : b ∉ reqs) (hbc : b ∉ cached')
    (hstate : s'.state = s.state) (hnode : s'.node = upd s.node b n) (hcomm : s'.comm = s.comm)
    (hserver : s'.server = s.server) (hmsg : s'.msgBlk = s.msgBlk)
    (hplain : ∀ p, s'.phase p ≠ .allocSync)
    (htold : ∀ p k c, s'.phase p = .receiving k → s'.mail p = some (.buffer c) →
      s.phase p = .receiving k ∧ s.mail p = some (.buffer c))
    (hcoherent : Coherent a'.content s.stored (s.entries reqs ++ [n.entry]) (s.entries cached'))
    (hkind : n.op = .read ∧ n.status = .invalid ∨ n.op = .write ∧ n.status = .valid)
    (hlatest : ∀ p, a'.content ∈ a'.seen p) (hsaw : ∀ p k x, a.Saw p k x → a'.Saw p k x)
    (hnew : n.op = .read → a'.Saw n.pid n.blknum (s.stored n.blknum)) :
    Faithful a' s' (reqs ++ [b]) cached' := by
  have hstored : s'.stored = s.stored := by
    unfold Disk.stored
    rw [hcomm, hserver]
  have hself : s'.node b = n := by
    rw [hnode, upd_self]
  have hold : ∀ c, c ≠ b → s'.node c = s.node c := fun c hc => by
    rw [hnode, upd_of_ne hc]
  have hreq : ∀ c ∈ reqs, s'.node c = s.node c := fun c hc => hold c fun heq => hb (heq ▸ hc)
  have hcached : ∀ c ∈ cached', s'.node c = s.node c :=
    fun c hc => hold c fun heq => hbc (heq ▸ hc)
  exact
    { opened := hstate.trans h.opened
      plain := hplain
      coherent := by
        have hqueue : s'.entries (reqs ++ [b]) = s.entries reqs ++ [n.entry] := by
          rw [Disk.entries, List.map_append, List.map_singleton, hself]
          exact congrArg (· ++ [n.entry])
            (entries_congr fun c hc => congrArg RdBuff.entry (hreq c hc))
        have hcache : s'.entries cached' = s.entries cached' :=
          entries_congr fun c hc => congrArg RdBuff.entry (hcached c hc)
        rw [hstored, hqueue, hcache]
        exact hcoherent
      kinds := fun c hc => by
        rcases List.mem_append.mp hc with hc | hc
        · rw [hreq c hc]
          exact h.kinds c hc
        · rw [List.mem_singleton.mp hc, hself]
          exact hkind
      unreferenced := fun c hc => by
        rw [hcached c hc]
        exact h.unreferenced c (hsub.subset hc)
      latest := hlatest
      asked := fun c hc hop => by
        rw [hstored]
        rcases List.mem_append.mp hc with hc | hc
        · rw [hreq c hc] at hop ⊢
          exact hsaw _ _ _ (h.asked c hc hop)
        · rw [List.mem_singleton.mp hc, hself] at hop ⊢
          exact hnew hop
      reading := fun c hc => by
        rw [hcomm] at hc
        obtain ⟨tail, rfl, -⟩ := Sound.head_of_current hserved (Or.inl hc)
        rw [hmsg, hreq c List.mem_cons_self]
        exact h.reading c hc
      answered := fun c hc => by
        have hmem := (hserved'.answered c hc).1
        rw [hcomm] at hc
        rw [hcached c hmem]
        exact hsaw _ _ _ (h.answered c hc)
      told := fun p k c hp hm => by
        obtain ⟨d, hd, hcd, -⟩ := hserved'.told p k _ hp hm
        cases hcd
        obtain ⟨hp, hm⟩ := htold p k c hp hm
        rw [hcached c hd]
        exact hsaw _ _ _ (h.told p k c hp hm) }

theorem putRead {t : Disk} {free' : List Ptr} (h : Faithful a s reqs cached)
    (hserved : Served s reqs cached) (hlinks : Relinked s t) (hsub : cached'.Sublist cached)
    (hshape : Shape t reqs cached' free' [b])
    (hserved' : Served (t.putRead pid blk b) (reqs ++ [b]) cached')
    (hmissing : Missing (s.entries reqs) (s.entries cached) blk) :
    Faithful a (t.putRead pid blk b) (reqs ++ [b]) cached' := by
  obtain ⟨nx, pv, fr, rfl⟩ := hlinks
  obtain ⟨hb, hbc⟩ := Sound.not_mem hshape
  have hevict := h.coherent.evict (hsub.map fun c => (s.node c).entry)
  have hphase : ∀ p, (Disk.putRead { s with next := nx, prev := pv, free := fr } pid blk b).phase p =
      if p = pid then .receiving blk else s.phase p := fun p => rfl
  refine h.put hserved hserved' hsub hb hbc rfl rfl rfl rfl rfl (fun p => ?_) (fun p k c hp hm => ?_)
    (hevict.fetch (hmissing.evict (hsub.map _))) (Or.inl ⟨rfl, rfl⟩) h.latest (fun _ _ _ hx => hx)
    fun _ => ?_
  · rw [hphase]
    split
    · exact nofun
    · exact h.plain p
  · by_cases heq : p = pid
    · have hmail : (Disk.putRead { s with next := nx, prev := pv, free := fr } pid blk b).mail pid =
          none := upd_self
      rw [heq, hmail] at hm
      cases hm
    · rw [hphase, if_neg heq] at hp
      have hmail : (Disk.putRead { s with next := nx, prev := pv, free := fr } pid blk b).mail p =
          s.mail p := upd_of_ne heq
      rw [hmail] at hm
      exact ⟨hp, hm⟩
  · exact ⟨a.content, h.latest pid, h.coherent.settled blk hmissing.1⟩

theorem putWrite {t : Disk} {free' : List Ptr} {buff : Block} (h : Faithful a s reqs cached)
    (hserved : Served s reqs cached) (hlinks : Relinked s t) (hsub : cached'.Sublist cached)
    (hshape : Shape t reqs cached' free' [b])
    (hserved' : Served (t.putWrite pid blk buff b) (reqs ++ [b]) cached')
    (hmissing : Missing (s.entries reqs) (s.entries cached') blk) :
    Faithful (a.put blk buff) (t.putWrite pid blk buff b) (reqs ++ [b]) cached' := by
  obtain ⟨nx, pv, fr, rfl⟩ := hlinks
  obtain ⟨hb, hbc⟩ := Sound.not_mem hshape
  have hevict := h.coherent.evict (hsub.map fun c => (s.node c).entry)
  have hphase : ∀ p,
      (Disk.putWrite { s with next := nx, prev := pv, free := fr } pid blk buff b).phase p =
        if p = pid then .idle else s.phase p := fun p => rfl
  refine h.put hserved hserved' hsub hb hbc rfl rfl rfl rfl rfl (fun p => ?_) (fun p k c hp hm => ?_)
    (hevict.store hmissing) (Or.inr ⟨rfl, rfl⟩) (fun _ => Account.latest_put)
    (fun _ _ _ hx => hx.put) nofun
  · rw [hphase]
    split
    · exact nofun
    · exact h.plain p
  · by_cases heq : p = pid
    · rw [hphase, if_pos heq] at hp
      cases hp
    · rw [hphase, if_neg heq] at hp
      exact ⟨hp, hm⟩

/-!
## Searches
-/

section Searches

variable {free held : List Ptr}

/-- The first entry of a list of buffers for a block. -/
theorem find_entries {l : List Ptr} : (s.entries l).find? (fun e => decide (e.key = blk)) =
    (l.find? fun c => decide ((s.node c).blknum = blk)).map fun c => (s.node c).entry :=
  List.find?_map

/-- No cached copy has data when the first one has none. -/
theorem not_cached (h : Faithful a s reqs cached)
    (hnone : ∀ c, cached.find? (fun c => decide ((s.node c).blknum = blk)) = some c →
      (s.node c).status = .invalid) : ∀ e ∈ s.entries cached, ¬e.Holds blk := by
  refine h.coherent.not_cached fun e he => ?_
  rw [find_entries] at he
  obtain ⟨c, hc, rfl⟩ := Option.map_eq_some_iff.mp he
  rw [entry_read (hnone c hc)]

/-- No request has data for a block but requests to write it. -/
theorem not_queued (h : Faithful a s reqs cached)
    (hnone : ∀ b ∈ reqs, (s.node b).blknum = blk → (s.node b).op ≠ .write) :
    ∀ e ∈ s.entries reqs, ¬e.Holds blk := by
  intro e he hh
  obtain ⟨b, hb, rfl⟩ := List.mem_map.mp he
  obtain ⟨hvalid, hblk⟩ := holds_entry.mp hh
  rcases h.kinds b hb with ⟨-, hst⟩ | ⟨hop, -⟩
  · rw [hst] at hvalid
    cases hvalid
  · exact hnone b hb hblk hop

/-- The data of a valid cached copy. -/
theorem cached_content (h : Faithful a s reqs cached) (hb : b ∈ cached)
    (hvalid : (s.node b).status = .valid) : a.content (s.node b).blknum = (s.node b).block := by
  refine h.coherent.cached (s.node b).entry (List.mem_map_of_mem hb) (s.node b).block ?_
  rw [entry_write hvalid]
  rfl

/-- The data of a request to write. -/
theorem queued_content (h : Faithful a s reqs cached) (hb : b ∈ reqs)
    (hop : (s.node b).op = .write) : a.content (s.node b).blknum = (s.node b).block := by
  have hvalid : (s.node b).status = .valid := by
    rcases h.kinds b hb with ⟨hread, -⟩ | ⟨-, hvalid⟩
    · rw [hop] at hread
      cases hread
    · exact hvalid
  refine h.coherent.queued (s.node b).entry (List.mem_map_of_mem hb) (s.node b).block ?_
  rw [entry_write hvalid]
  rfl

/-- The most recent request for a block decides whether one has data. -/
theorem not_recent (h : Faithful a s reqs cached)
    (hnone : ∀ b, reqs.reverse.find? (fun c => decide ((s.node c).blknum = blk)) = some b →
      (s.node b).op ≠ .write) : ∀ e ∈ s.entries reqs, ¬e.Holds blk := by
  refine h.coherent.not_queued fun e he => ?_
  have hrev : (s.entries reqs).reverse = s.entries reqs.reverse := List.map_reverse.symm
  rw [hrev, find_entries] at he
  obtain ⟨b, hb, rfl⟩ := Option.map_eq_some_iff.mp he
  rcases h.kinds b (List.mem_reverse.mp (List.mem_of_find?_eq_some hb)) with ⟨-, hst⟩ | ⟨hop, -⟩
  · rw [entry_read hst]
  · exact absurd hop (hnone b hb)

/-- What {lit}`rdsread` finds is the content of the block, and when it finds nothing there is
no data for the block in the cache and in the queue. -/
theorem hit (h : Faithful a s reqs cached) (hshape : Shape s reqs cached free held)
    {found : Option Block} (hhit : s.hit blk = some found) :
    (∀ x ∈ found, a.content blk = x) ∧
      (found = none → Missing (s.entries reqs) (s.entries cached) blk) := by
  have hctail : ∀ c ∈ cached, c ≠ .ctnext := by
    rintro c hc rfl
    exact layout.tail_not_node (q := .chnext) (Or.inr rfl)
      (hshape.isBuffer (b := .ctnext) (by simp [hc]))
  have hrhead : ∀ b ∈ reqs, b ≠ .rhnext := by
    rintro b hb rfl
    exact layout.head_not_node (q := .rhnext) (Or.inl rfl)
      (hshape.isBuffer (b := .rhnext) (by simp [hb]))
  unfold Disk.hit at hhit
  rw [hshape.seekCache_eq, hshape.seekRecent_eq, Option.bind_some, Option.map_some] at hhit
  by_cases hvalid : ∃ c, cached.find? (fun c => decide ((s.node c).blknum = blk)) = some c ∧
      (s.node c).status = .valid
  · obtain ⟨c, hc, hst⟩ := hvalid
    have hmem := List.mem_of_find?_eq_some hc
    have hfirst := List.find?_some hc
    have hblk : (s.node c).blknum = blk := of_decide_eq_true hfirst
    rw [hc, Option.getD_some, if_pos ⟨hctail c hmem, hst⟩] at hhit
    cases hhit
    refine ⟨fun x hx => ?_, nofun⟩
    rw [← Option.mem_some.mp hx, ← hblk]
    exact h.cached_content hmem hst
  · have hnc : ∀ e ∈ s.entries cached, ¬e.Holds blk := h.not_cached fun c hc => by
      cases hst : (s.node c).status with
      | valid => exact absurd ⟨c, hc, hst⟩ hvalid
      | invalid => rfl
    rw [if_neg ?_] at hhit
    · by_cases hwrite : ∃ b, reqs.reverse.find? (fun c => decide ((s.node c).blknum = blk)) = some b ∧
          (s.node b).op = .write
      · obtain ⟨b, hb, hop⟩ := hwrite
        have hmem := List.mem_reverse.mp (List.mem_of_find?_eq_some hb)
        have hlast := List.find?_some hb
        have hblk : (s.node b).blknum = blk := of_decide_eq_true hlast
        rw [hb, Option.getD_some, if_pos ⟨hrhead b hmem, hop⟩] at hhit
        cases hhit
        refine ⟨fun x hx => ?_, nofun⟩
        rw [← Option.mem_some.mp hx, ← hblk]
        exact h.queued_content hmem hop
      · rw [if_neg ?_] at hhit
        · cases hhit
          exact ⟨nofun, fun _ => ⟨h.not_recent fun b hb hop => hwrite ⟨b, hb, hop⟩, hnc⟩⟩
        · rintro ⟨hne, hop⟩
          cases hf : reqs.reverse.find? fun c => decide ((s.node c).blknum = blk) with
          | none =>
              rw [hf] at hne
              exact hne rfl
          | some b =>
              rw [hf] at hop
              exact hwrite ⟨b, hf, hop⟩
    · rintro ⟨hne, hst⟩
      cases hf : cached.find? fun c => decide ((s.node c).blknum = blk) with
      | none =>
          rw [hf] at hne
          exact hne rfl
      | some c =>
          rw [hf] at hst
          exact hvalid ⟨c, hf, hst⟩

/-- A search that comes to the end of a list has found nothing. -/
theorem find_none {l : List Ptr} {P : Ptr → Bool} {stop : Ptr} (hstop : stop ∉ l)
    (h : some ((l.find? P).getD stop) = some stop) : l.find? P = none := by
  cases hf : l.find? P with
  | none => rfl
  | some c =>
      rw [hf] at h
      have hc : c = stop := Option.some.inj h
      exact absurd (hc ▸ List.mem_of_find?_eq_some hf) hstop

/-- Nothing is queued for a block when {lit}`rdswrite` finds no request to write it. -/
theorem no_pending (h : Faithful a s reqs cached) (hshape : Shape s reqs cached free held)
    (hnone : s.pendingWrite blk = some .rtnext) : ∀ e ∈ s.entries reqs, ¬e.Holds blk := by
  have hstop : Ptr.rtnext ∉ reqs := fun hm =>
    layout.tail_not_node (q := .rhnext) (Or.inl rfl) (hshape.isBuffer (b := .rtnext) (by simp [hm]))
  unfold Disk.pendingWrite at hnone
  rw [hshape.seekRequest_eq] at hnone
  refine h.not_queued fun b hb hblk hop => ?_
  exact List.find?_eq_none.mp (find_none hstop hnone) b hb (decide_eq_true ⟨hblk, hop⟩)

/-- Nothing is cached for a block besides the copy at which {lit}`rdswrite` looks, and that has
data only when it is used for the request. -/
theorem copy_cases (h : Faithful a s reqs cached) (hshape : Shape s reqs cached free held) {c : Ptr}
    (hc : s.cachedCopy blk = some c) :
    (s.Reuses c ∧ ∃ l₁ l₂, cached = l₁ ++ c :: l₂ ∧ ∀ e ∈ s.entries (l₁ ++ l₂), ¬e.Holds blk) ∨
    ¬s.Reuses c ∧ ∀ e ∈ s.entries cached, ¬e.Holds blk := by
  unfold Disk.cachedCopy at hc
  rw [hshape.seekCache_eq] at hc
  cases hf : cached.find? fun c => decide ((s.node c).blknum = blk) with
  | none =>
      rw [hf] at hc
      cases hc
      refine Or.inr ⟨fun hr => hr.1 rfl, h.not_cached fun c hc => ?_⟩
      rw [hf] at hc
      cases hc
  | some d =>
      rw [hf] at hc
      cases hc
      have hmem := List.mem_of_find?_eq_some hf
      have hne : d ≠ .ctnext := by
        rintro rfl
        exact layout.tail_not_node (q := .chnext) (Or.inr rfl)
          (hshape.isBuffer (b := .ctnext) (by simp [hmem]))
      by_cases hzero : (s.node d).refcnt ≤ 0
      · obtain ⟨hblk, l₁, l₂, rfl, hl₁⟩ := List.find?_eq_some_iff_append.mp hf
        have hfirst := List.pairwise_append.mp (List.pairwise_map.mp h.coherent.first)
        refine Or.inl ⟨⟨hne, hzero⟩, l₁, l₂, rfl, fun e he hh => ?_⟩
        obtain ⟨c, hcmem, rfl⟩ := List.mem_map.mp he
        rcases List.mem_append.mp hcmem with hc | hc
        · have hno := hl₁ c hc
          rw [decide_eq_true (holds_entry.mp hh).2] at hno
          cases hno
        · refine (List.pairwise_cons.mp hfirst.2.1).1 c hc ⟨hh.1, hh.2.trans ?_⟩
          exact (of_decide_eq_true hblk).symm
      · refine Or.inr ⟨fun hr => hzero hr.2, h.not_cached fun c hc => ?_⟩
        rw [hf] at hc
        cases hc
        cases hst : (s.node d).status with
        | valid => exact absurd (h.unreferenced d hmem hst) hzero
        | invalid => rfl

end Searches

end Faithful

/-- The lists of a state and its account agree. -/
def Kept (a : Account) (s : Disk) : Prop :=
  ∃ reqs cached free, Shape s reqs cached free [] ∧ Faithful a s reqs cached

theorem Kept.faithful {a : Account} {s : Disk} {reqs cached free : List Ptr} (h : Kept a s)
    (hshape : Shape s reqs cached free []) : Faithful a s reqs cached := by
  obtain ⟨reqs', cached', free', hshape', hfaithful⟩ := h
  rw [← hshape.queuedList_eq, ← hshape.cachedList_eq, hshape'.queuedList_eq, hshape'.cachedList_eq]
  exact hfaithful

namespace Faithful

variable {a : Account} {s s' : Disk} {reqs cached free : List Ptr} {b : Ptr} {pid : Int}
  {blk : UInt32} {ph : Phase}

/-!
## The steps of the processes
-/

/-- A process that goes on in {lit}`rdsbufalloc` puts its request into the queue, or panics. -/
theorem goOn (h : Faithful a s reqs cached) (hI : Sound False 1 s reqs cached free [])
    (hout : s.Outside pid) (hin : pid ∉ s.availsem.inside) (hph : ph ≠ .allocSync)
    (hmissing : ∀ blk ∈ ph.block, Missing (s.entries reqs) (s.entries cached) blk)
    (hs : s.goOn pid ph = some s') :
    s'.panicked = s.panicked ∧ (s'.phase pid).isIdle = ph.writes.isSome ∧
      Kept (a.putSome ph.writes) s' ∨
    s'.panicked = true ∧ Kept a s' := by
  rcases hI.goOn_cases hout hin hs with ⟨t, b, cached', free', hlinks, hsub, ht, rfl, hsound⟩ |
    ⟨-, -, rfl⟩
  · obtain ⟨hall, -⟩ := Sound.goOn_eq hs
    have hpan : (t.place pid b ph).panicked = s.panicked := by
      obtain ⟨nx, pv, fr, rfl⟩ := hlinks
      exact Sound.place_panicked
    refine Or.inl ⟨hpan, ?_⟩
    cases ph with
    | allocRead blk =>
        have hidle : (t.putRead pid blk b).phase pid = .receiving blk := upd_self
        refine ⟨congrArg Phase.isIdle hidle, _, _, _, hsound.shape, ?_⟩
        exact h.putRead hI.served hlinks hsub ht.shape hsound.served (hmissing blk rfl)
    | allocWrite blk buff =>
        have hidle : (t.putWrite pid blk buff b).phase pid = .idle := upd_self
        refine ⟨congrArg Phase.isIdle hidle, _, _, _, hsound.shape, ?_⟩
        exact h.putWrite hI.served hlinks hsub ht.shape hsound.served
          ((hmissing blk rfl).evict (hsub.map _))
    | allocSync => exact absurd rfl hph
    | idle => cases hall
    | receiving blk => cases hall
    | syncing => cases hall
    | deleting => cases hall
  · exact Or.inr ⟨rfl, reqs, cached, free, hI.shape.congr rfl rfl rfl,
      h.congr rfl rfl rfl rfl rfl h.plain fun _ _ _ hp hm => ⟨hp, hm⟩⟩

/-- A process asks for a buffer: it gets one at once, waits, or panics. -/
theorem waitAvail (h : Faithful a s reqs cached) (hI : Sound False 0 s reqs cached free [])
    (hidle : s.phase pid = .idle) (hall : Allocates ph) (hph : ph ≠ .allocSync)
    (hmissing : ∀ blk ∈ ph.block, Missing (s.entries reqs) (s.entries cached) blk)
    (hs : s.waitAvail pid ph = some s') :
    s'.panicked = s.panicked ∧ (s'.phase pid).isIdle = ph.writes.isSome ∧
      Kept (a.putSome ph.writes) s' ∨
    (s'.panicked = true ∨ (s'.phase pid).isIdle = false) ∧ Kept a s' := by
  have hin := hI.not_inside_of_idle hidle
  unfold Disk.waitAvail at hs
  by_cases hopen : s.availsem.Open
  · simp only [if_pos hopen] at hs
    have hsame : (s.availsem.enter pid).inside = s.availsem.inside :=
      Turnstile.inside_enter_open hopen
    have hentered : Sound False 1 { s with availsem := s.availsem.enter pid } reqs cached free [] :=
      { shape := hI.shape.congr rfl rfl rfl
        served := hI.served.congr rfl rfl rfl fun _ => ⟨rfl, rfl, rfl, rfl⟩
        orders := hI.orders.congr rfl rfl rfl fun _ _ => rfl
        available := False.elim
        inside := by
          unfold Inside
          rw [hsame]
          exact hI.inside }
    have hin' : pid ∉ (s.availsem.enter pid).inside := by
      rw [hsame]
      exact hin
    have hsame : Faithful a { s with availsem := s.availsem.enter pid } reqs cached :=
      h.congr rfl rfl rfl rfl rfl h.plain fun _ _ _ hp hm => ⟨hp, hm⟩
    rcases hsame.goOn hentered (Sound.outside_of_idle hidle) hin' hph hmissing hs with hput |
      ⟨hpan, hkept⟩
    · exact Or.inl hput
    · exact Or.inr ⟨Or.inl hpan, hkept⟩
  · simp only [if_neg hopen] at hs
    cases hs
    have hself : (upd s.phase pid ph) pid = ph := upd_self
    refine Or.inr ⟨Or.inr ?_, reqs, cached, free, hI.shape.congr rfl rfl rfl,
      h.congr rfl rfl rfl rfl rfl (fun p => ?_) fun p k c hp hm => ⟨?_, hm⟩⟩
    · change ((upd s.phase pid ph) pid).isIdle = false
      rw [hself]
      cases ph with
      | idle => cases hall
      | allocRead blk => rfl
      | allocWrite blk buff => rfl
      | allocSync => rfl
      | receiving blk => rfl
      | syncing => rfl
      | deleting => rfl
    · change upd s.phase pid ph p ≠ .allocSync
      by_cases heq : p = pid
      · rw [heq, upd_self]
        exact hph
      · rw [upd_of_ne heq]
        exact h.plain p
    · change upd s.phase pid ph p = .receiving k at hp
      by_cases heq : p = pid
      · rw [heq, upd_self] at hp
        rw [hp] at hall
        cases hall
      · rwa [upd_of_ne heq] at hp

/-- {lit}`rdswrite` changes the data of a pending request. -/
theorem change {buff : Block} (h : Faithful a s reqs cached)
    (hI : Sound False 0 s reqs cached free [])
    (hb : b ∈ reqs) (hblk : (s.node b).blknum = blk) (hop : (s.node b).op = .write) :
    Kept (a.put blk buff) (s.setNode b { s.node b with block := buff }) := by
  obtain ⟨l₁, l₂, rfl⟩ := List.append_of_mem hb
  have hnd := hI.shape.nodup
  have hvalid : (s.node b).status = .valid := by
    rcases h.kinds b hb with ⟨hread, -⟩ | ⟨-, hvalid⟩
    · rw [hop] at hread
      cases hread
    · exact hvalid
  have hself : (s.setNode b { s.node b with block := buff }).node b =
      { s.node b with block := buff } := upd_self
  have hold : ∀ c, c ≠ b → (s.setNode b { s.node b with block := buff }).node c = s.node c :=
    fun c hc => upd_of_ne hc
  have hside : ∀ c, c ∈ l₁ ∨ c ∈ l₂ ∨ c ∈ cached → c ≠ b := by
    rintro c hc rfl
    grind
  have hentry : (s.node b).entry = { key := blk, data := some (s.node b).block } := by
    rw [entry_write hvalid, hblk]
  have hentry' : ({ s.node b with block := buff } : RdBuff).entry =
      { key := blk, data := some buff } := by
    rw [← hblk]
    exact entry_write hvalid
  refine ⟨l₁ ++ b :: l₂, cached, free, hI.shape.congr rfl rfl rfl, ?_⟩
  exact
    { opened := h.opened
      plain := h.plain
      coherent := by
        have hcoherent := h.coherent
        have hsame : ∀ l, (∀ c ∈ l, c ≠ b) →
            (s.setNode b { s.node b with block := buff }).entries l = s.entries l :=
          fun l hl => entries_congr fun c hc => congrArg RdBuff.entry (hold c (hl c hc))
        have hqueue : (s.setNode b { s.node b with block := buff }).entries (l₁ ++ b :: l₂) =
            s.entries l₁ ++ ⟨blk, some buff⟩ :: s.entries l₂ := by
          rw [Disk.entries, List.map_append, List.map_cons, hself, hentry']
          rw [← hsame l₁ fun c hc => hside c (Or.inl hc),
            ← hsame l₂ fun c hc => hside c (Or.inr (Or.inl hc))]
          rfl
        have hqueue' : s.entries (l₁ ++ b :: l₂) =
            s.entries l₁ ++ ⟨blk, some (s.node b).block⟩ :: s.entries l₂ := by
          rw [Disk.entries, List.map_append, List.map_cons, hentry]
          rfl
        rw [hqueue'] at hcoherent
        rw [hqueue, hsame cached fun c hc => hside c (Or.inr (Or.inr hc))]
        exact hcoherent.restore
      kinds := fun c hc => by
        by_cases heq : c = b
        · rw [heq, hself]
          exact Or.inr ⟨hop, hvalid⟩
        · rw [hold c heq]
          exact h.kinds c hc
      unreferenced := fun c hc => by
        rw [hold c (hside c (Or.inr (Or.inr hc)))]
        exact h.unreferenced c hc
      latest := fun _ => Account.latest_put
      asked := fun c hc hread => by
        by_cases heq : c = b
        · rw [heq, hself] at hread
          exact absurd (hop.symm.trans hread) nofun
        · rw [hold c heq] at hread ⊢
          exact (h.asked c hc hread).put
      reading := fun c hc => by
        have hsame : ((s.setNode b { s.node b with block := buff }).node c).blknum =
            (s.node c).blknum := by
          by_cases heq : c = b
          · rw [heq, hself]
          · rw [hold c heq]
        rw [hsame]
        exact h.reading c hc
      answered := fun c hc => by
        have hmem := (hI.served.answered c hc).1
        rw [hold c (hside c (Or.inr (Or.inr hmem)))]
        exact (h.answered c hc).put
      told := fun p k c hp hm => by
        obtain ⟨d, hd, hcd, -⟩ := hI.served.told p k _ hp hm
        cases hcd
        rw [hold c (hside c (Or.inr (Or.inr hd)))]
        exact (h.told p k c hp hm).put }

/-- {lit}`rdswrite` returns when it has changed a pending request or put one into the queue; else
it waits for a buffer, or panics. -/
theorem rdswrite {buff : Block} (h : Faithful a s reqs cached)
    (hI : Sound False 0 s reqs cached free []) (hidle : s.phase pid = .idle)
    (hs : s.rdswrite pid blk buff = some s') :
    s'.panicked = s.panicked ∧ (s'.phase pid).isIdle = true ∧ Kept (a.put blk buff) s' ∨
    (s'.panicked = true ∨ (s'.phase pid).isIdle = false) ∧ Kept a s' := by
  unfold Disk.rdswrite at hs
  rw [if_neg (not_not.mpr h.opened)] at hs
  obtain ⟨b, hb, hs⟩ := Option.bind_eq_some_iff.mp hs
  by_cases hend : b = .rtnext
  · rw [if_neg (not_not.mpr hend)] at hs
    rw [hend] at hb
    have hqueue := h.no_pending hI.shape hb
    obtain ⟨c, hc, hs⟩ := Option.bind_eq_some_iff.mp hs
    rcases h.copy_cases hI.shape hc with ⟨hreuse, l₁, l₂, rfl, hcache⟩ | ⟨hreuse, hcache⟩
    · rw [if_pos hreuse] at hs
      cases hs
      obtain ⟨hphase, hpan, hnode⟩ := Sound.reserve_same (s := s)
      have hres := hI.reserve False.elim
      have hzero : (s.reserve.node c).refcnt ≤ 0 := by
        rw [hnode]
        exact hreuse.2
      have hidle' : s.reserve.phase pid = .idle := (congrFun hphase pid).trans hidle
      have hsame : Faithful a s.reserve reqs (l₁ ++ c :: l₂) := by
        unfold Disk.reserve
        split
        · exact h
        · exact h.congr rfl rfl rfl rfl rfl h.plain fun _ _ _ hp hm => ⟨hp, hm⟩
      have hput : Sound _ 0 ((s.reserve.unlink c).putWrite pid blk buff c) _ _ _ [] :=
        (hres.unlink_cached hzero).putWrite
          (Sound.outside_of_idle (s := s.reserve.unlink c) hidle')
          ((hres.unlink_cached hzero).not_inside_of_idle hidle') buff
      have hsub : (l₁ ++ l₂).Sublist (l₁ ++ c :: l₂) :=
        List.Sublist.append_left (List.sublist_cons_self _ _) _
      have hentries : ∀ l, s.reserve.entries l = s.entries l := fun l =>
        entries_congr fun c _ => by rw [hnode]
      rw [Sound.reserve_unlink]
      refine Or.inl ⟨hpan, congrArg Phase.isIdle upd_self, _, _, _, hput.shape, ?_⟩
      refine hsame.putWrite hres.served ⟨_, _, _, rfl⟩ hsub (hres.unlink_cached hzero).shape
        hput.served ?_
      rw [hentries, hentries]
      exact ⟨hqueue, hcache⟩
    · rw [if_neg hreuse] at hs
      refine h.waitAvail hI hidle (show Allocates (.allocWrite blk buff) from trivial) nofun
        (fun k hk => ?_) hs
      rw [← Option.mem_some.mp hk]
      exact ⟨hqueue, hcache⟩
  · rw [if_pos hend] at hs
    cases hs
    unfold Disk.pendingWrite at hb
    rw [hI.shape.seekRequest_eq] at hb
    cases hf : reqs.find? fun b => decide ((s.node b).blknum = blk ∧ (s.node b).op = .write) with
    | none =>
        rw [hf] at hb
        exact absurd (Option.some.inj hb).symm hend
    | some d =>
        rw [hf] at hb
        cases hb
        have hfound := List.find?_some hf
        obtain ⟨hblk, hop⟩ := of_decide_eq_true hfound
        exact Or.inl ⟨rfl, congrArg Phase.isIdle hidle,
          h.change hI (List.mem_of_find?_eq_some hf) hblk hop⟩

/-- {lit}`rdsread` returns what the block holds, or waits for a buffer or for an answer. -/
theorem rdsread (h : Faithful a s reqs cached) (hI : Sound False 0 s reqs cached free [])
    (hidle : s.phase pid = .idle) (hs : s.rdsread pid blk = some s') :
    Kept (a.call pid) s' ∧
      (s'.panicked = true ∨ (s'.phase pid).isIdle = false ∨ a.content blk = s'.buff pid) := by
  have hcall := h.call hI.served hidle
  unfold Disk.rdsread at hs
  rw [if_neg (not_not.mpr h.opened)] at hs
  obtain ⟨found, hhit, hs⟩ := Option.bind_eq_some_iff.mp hs
  obtain ⟨hsome, hnone⟩ := h.hit hI.shape hhit
  cases found with
  | some data =>
      cases hs
      refine ⟨⟨reqs, cached, free, hI.shape.congr rfl rfl rfl, ?_⟩, Or.inr (Or.inr ?_)⟩
      · exact hcall.congr rfl rfl rfl rfl rfl h.plain fun _ _ _ hp hm => ⟨hp, hm⟩
      · have hself : (s.setBuff pid data).buff pid = data := upd_self
        rw [hself]
        exact hsome data rfl
  | none =>
      rcases hcall.waitAvail hI hidle (show Allocates (.allocRead blk) from trivial) nofun
        (fun k hk => by rw [← Option.mem_some.mp hk]; exact hnone rfl) hs with
        ⟨-, hphase, hkept⟩ | ⟨hstop, hkept⟩
      · exact ⟨hkept, Or.inr (Or.inl hphase)⟩
      · exact ⟨hkept, hstop.imp id Or.inl⟩

/-- A reader takes what its buffer holds, and leaves the buffer in the cache or on the free
list. -/
theorem rdsreadWake (h : Faithful a s reqs cached) (hI : Sound False 0 s reqs cached free [])
    (hp : s.phase pid = .receiving blk) (hm : s.mail pid = some (.buffer b))
    (hs : s.rdsreadWake pid blk b = some s') : Kept a s' ∧ a.Saw pid blk (s'.buff pid) := by
  obtain ⟨c, hc, hbc, hone, -, -⟩ := hI.served.told pid blk _ hp hm
  have hsame := Msg.buffer.inj hbc
  subst hsame
  have hsaw := h.told pid blk b hp hm
  obtain ⟨l₁, l₂, rfl⟩ := List.append_of_mem hc
  have hnd := hI.shape.nodup
  have hb : b ∉ reqs := by grind
  have hbl : b ∉ l₁ := by grind
  have hlen := hI.shape.length_eq
  have hself : (s.takeBlock pid b).node b = { s.node b with refcnt := (s.node b).refcnt - 1 } :=
    upd_self
  have hnode : ∀ c, ((s.takeBlock pid b).node c).entry = (s.node c).entry ∧
      ((s.takeBlock pid b).node c).block = (s.node c).block ∧
      ((s.takeBlock pid b).node c).status = (s.node c).status := by
    intro c
    by_cases heq : c = b
    · rw [heq, hself]
      exact ⟨rfl, rfl, rfl⟩
    · have hold : (s.takeBlock pid b).node c = s.node c := upd_of_ne heq
      rw [hold]
      exact ⟨rfl, rfl, rfl⟩
  have hreq : ∀ c, c ≠ b → (s.takeBlock pid b).node c = s.node c := fun c hc => upd_of_ne hc
  have hout : ∀ c ∈ reqs, c ≠ b := fun c hc heq => hb (heq ▸ hc)
  have htaken : Faithful a (s.takeBlock pid b) reqs (l₁ ++ b :: l₂) :=
    { opened := h.opened
      plain := fun p => by
        change upd s.phase pid .idle p ≠ .allocSync
        by_cases heq : p = pid
        · rw [heq, upd_self]
          exact nofun
        · rw [upd_of_ne heq]
          exact h.plain p
      coherent := by
        have hentries : ∀ l, (s.takeBlock pid b).entries l = s.entries l := fun l =>
          entries_congr fun c _ => (hnode c).1
        rw [hentries, hentries]
        exact h.coherent
      kinds := fun c hc => by
        rw [hreq c (hout c hc)]
        exact h.kinds c hc
      unreferenced := fun c hc hst => by
        by_cases heq : c = b
        · rw [heq, hself]
          change (s.node b).refcnt - 1 ≤ 0
          omega
        · rw [hreq c heq] at hst ⊢
          exact h.unreferenced c hc hst
      latest := h.latest
      asked := fun c hc hop => by
        rw [hreq c (hout c hc)] at hop ⊢
        exact h.asked c hc hop
      reading := fun c hcomm => by
        obtain ⟨rest, rfl, -⟩ := Sound.head_of_current hI.served (Or.inl hcomm)
        rw [hreq c (hout c List.mem_cons_self)]
        exact h.reading c hcomm
      answered := fun c hcomm => by
        have hne : c ≠ b := fun heq => hI.served.told_ne hp hm (heq ▸ hcomm)
        rw [hreq c hne]
        exact h.answered c hcomm
      told := fun p k c hp' hm' => by
        change upd s.phase pid .idle p = .receiving k at hp'
        change upd s.mail pid none p = some (.buffer c) at hm'
        by_cases heq : p = pid
        · rw [heq, upd_self] at hp'
          cases hp'
        · rw [upd_of_ne heq] at hp' hm'
          rw [(hnode c).2.1]
          exact h.told p k c hp' hm' }
  have hshape : Shape (s.takeBlock pid b) reqs (l₁ ++ b :: l₂) free [] := hI.shape.congr rfl rfl rfl
  have hzero : ((s.takeBlock pid b).node b).refcnt ≤ 0 := by
    rw [hself]
    change (s.node b).refcnt - 1 ≤ 0
    omega
  have hbuff : (s.takeBlock pid b).buff pid = (s.node b).block := upd_self
  unfold Disk.rdsreadWake at hs
  generalize s.takeBlock pid b = t at hs htaken hshape hzero hbuff
  rw [List.length_append, List.length_cons] at hlen
  have hseek : seek t.next b (fun c => decide ((t.node c).blknum = blk)) (RD_BUFFS + 1)
      (t.next .chnext) = _ :=
    seek_seg (seg_append.mp hshape.cached_seg).1 _ hbl (by omega)
  rw [if_pos hzero, hseek, Option.map_some] at hs
  split at hs
  · cases hs
    rw [hbuff]
    exact ⟨⟨_, _, _, hshape, htaken⟩, hsaw⟩
  · cases hs
    have hsub : (l₁ ++ l₂).Sublist (l₁ ++ b :: l₂) :=
      List.Sublist.append_left (List.sublist_cons_self _ _) _
    refine ⟨⟨_, _, _, hshape.unlink_cached.release, ?_⟩, ?_⟩
    · exact (htaken.uncache hsub).congr rfl rfl rfl rfl rfl htaken.plain
        fun _ _ _ hp hm => ⟨hp, hm⟩
    · change a.Saw pid blk (t.buff pid)
      rw [hbuff]
      exact hsaw

/-!
## The steps of the communication process
-/

/-- {lit}`rdsprocess` goes on without touching a buffer; it may have sent a message. -/
theorem setComm (h : Faithful a s reqs cached) (hstate : s'.state = s.state)
    (hnode : s'.node = s.node) (hphase : s'.phase = s.phase) (hstored : s'.stored = s.stored)
    (hreading : ∀ b, s'.comm = .reading b → s'.msgBlk = (s.node b).blknum)
    (hanswered : ∀ b, s'.comm ≠ .answered b)
    (htold : ∀ p k c, s.phase p = .receiving k → s'.mail p = some (.buffer c) →
      a.Saw p k (s.node c).block) : Faithful a s' reqs cached where
  opened := hstate.trans h.opened
  plain := by
    rw [hphase]
    exact h.plain
  coherent := by
    unfold Disk.entries
    rw [hstored, hnode]
    exact h.coherent
  kinds := by
    rw [hnode]
    exact h.kinds
  unreferenced := by
    rw [hnode]
    exact h.unreferenced
  latest := h.latest
  asked := by
    rw [hnode, hstored]
    exact h.asked
  reading := by
    rw [hnode]
    exact hreading
  answered := fun b hb => absurd hb (hanswered b)
  told := by
    rw [hphase, hnode]
    exact htold

/-- A request to write is taken. -/
theorem takeWrite {rest : List Ptr} (h : Faithful a s (b :: rest) cached)
    (hI : Sound False 0 s (b :: rest) cached free []) (hop : (s.node b).op = .write)
    (hstored : s.stored = s.server) : Faithful a (s.takeWrite b) rest (b :: cached) := by
  have hnd := hI.shape.nodup
  have hvalid : (s.node b).status = .valid := by
    rcases h.kinds b List.mem_cons_self with ⟨hread, -⟩ | ⟨-, hvalid⟩
    · rw [hop] at hread
      cases hread
    · exact hvalid
  have hself : (s.takeWrite b).node b = { s.node b with refcnt := 0 } := upd_self
  have hold : ∀ c, c ≠ b → (s.takeWrite b).node c = s.node c := fun c hc => upd_of_ne hc
  have hrest : ∀ c ∈ rest, c ≠ b := by
    rintro c hc rfl
    grind
  have hcached : ∀ c ∈ cached, c ≠ b := by
    rintro c hc rfl
    grind
  have hstored' : (s.takeWrite b).stored = upd s.stored (s.node b).blknum (s.node b).block := by
    rw [hstored]
    rfl
  have hentry : (s.node b).entry = { key := (s.node b).blknum, data := some (s.node b).block } :=
    entry_write hvalid
  have hentry' : ((s.takeWrite b).node b).entry =
      { key := (s.node b).blknum, data := some (s.node b).block } := by
    rw [hself]
    exact entry_write hvalid
  have hcoherent := h.coherent
  have hsplit : s.entries (b :: rest) =
      ⟨(s.node b).blknum, some (s.node b).block⟩ :: s.entries rest := by
    rw [← hentry]
    rfl
  rw [hsplit] at hcoherent
  exact
    { opened := h.opened
      plain := h.plain
      coherent := by
        have hcons : (s.takeWrite b).entries (b :: cached) =
            ⟨(s.node b).blknum, some (s.node b).block⟩ :: s.entries cached := by
          rw [← hentry']
          exact congrArg _ (entries_congr fun c hc => congrArg RdBuff.entry (hold c (hcached c hc)))
        have htail : (s.takeWrite b).entries rest = s.entries rest :=
          entries_congr fun c hc => congrArg RdBuff.entry (hold c (hrest c hc))
        rw [hstored', hcons, htail]
        exact hcoherent.take
      kinds := fun c hc => by
        rw [hold c (hrest c hc)]
        exact h.kinds c (List.mem_cons_of_mem _ hc)
      unreferenced := fun c hc => by
        rcases List.mem_cons.mp hc with rfl | hc
        · rw [hself]
          exact fun _ => Int.le_refl 0
        · rw [hold c (hcached c hc)]
          exact h.unreferenced c hc
      latest := h.latest
      asked := fun c hc hread => by
        -- no request for the block that is taken stands behind its write
        have hne : (s.node c).blknum ≠ (s.node b).blknum := fun heq =>
          (List.pairwise_cons.mp hcoherent.ordered).1 (s.node c).entry (List.mem_map_of_mem hc)
            ⟨rfl, heq.symm⟩
        rw [hold c (hrest c hc)] at hread ⊢
        rw [hstored', upd_of_ne hne]
        exact h.asked c (List.mem_cons_of_mem _ hc) hread
      reading := nofun
      answered := nofun
      told := fun p k c hp hm => by
        obtain ⟨d, hd, hcd, -⟩ := hI.served.told p k _ hp hm
        cases hcd
        rw [hold c (hcached c hd)]
        exact h.told p k c hp hm }

/-- The server has answered a request to read. -/
theorem readDone {rest : List Ptr} (h : Faithful a s (b :: rest) cached)
    (hI : Sound False 0 s (b :: rest) cached free []) (hcomm : s.comm = .reading b) :
    Faithful a (s.readDone b) rest (b :: cached) := by
  have hnd := hI.shape.nodup
  have hop : (s.node b).op = .read := by
    have hcur := hI.served.current
    unfold Disk.Current at hcur
    rw [hcomm] at hcur
    exact hcur.2
  have hinvalid : (s.node b).status = .invalid := by
    rcases h.kinds b List.mem_cons_self with ⟨-, hst⟩ | ⟨hwrite, -⟩
    · exact hst
    · rw [hop] at hwrite
      cases hwrite
  have hself : (s.readDone b).node b =
      { s.node b with block := s.server s.msgBlk, refcnt := 1 } := by
    refine upd_self.trans ?_
    change { upd s.node b { s.node b with block := s.server s.msgBlk } b with refcnt := 1 } = _
    rw [upd_self]
  have hold : ∀ c, c ≠ b → (s.readDone b).node c = s.node c := fun c hc =>
    (upd_of_ne hc).trans (upd_of_ne hc)
  have hrest : ∀ c ∈ rest, c ≠ b := by
    rintro c hc rfl
    grind
  have hcached : ∀ c ∈ cached, c ≠ b := by
    rintro c hc rfl
    grind
  have hstored : s.stored = s.server := by
    unfold Disk.stored
    rw [hcomm]
  have hstored' : (s.readDone b).stored = s.stored := by
    rw [hstored]
    rfl
  have hcoherent := h.coherent
  have hsplit : s.entries (b :: rest) = ⟨(s.node b).blknum, none⟩ :: s.entries rest := by
    rw [← entry_read hinvalid]
    rfl
  rw [hsplit] at hcoherent
  exact
    { opened := h.opened
      plain := h.plain
      coherent := by
        have hentry' : ((s.readDone b).node b).entry = ⟨(s.node b).blknum, none⟩ := by
          rw [hself]
          exact entry_read hinvalid
        have hcons : (s.readDone b).entries (b :: cached) =
            ⟨(s.node b).blknum, none⟩ :: s.entries cached := by
          rw [← hentry']
          exact congrArg _ (entries_congr fun c hc => congrArg RdBuff.entry (hold c (hcached c hc)))
        have htail : (s.readDone b).entries rest = s.entries rest :=
          entries_congr fun c hc => congrArg RdBuff.entry (hold c (hrest c hc))
        rw [hstored', hcons, htail]
        exact hcoherent.answer
      kinds := fun c hc => by
        rw [hold c (hrest c hc)]
        exact h.kinds c (List.mem_cons_of_mem _ hc)
      unreferenced := fun c hc => by
        rcases List.mem_cons.mp hc with rfl | hc
        · rw [hself]
          exact fun hst => absurd (hinvalid.symm.trans hst) nofun
        · rw [hold c (hcached c hc)]
          exact h.unreferenced c hc
      latest := h.latest
      asked := fun c hc hread => by
        rw [hold c (hrest c hc)] at hread ⊢
        rw [hstored']
        exact h.asked c (List.mem_cons_of_mem _ hc) hread
      reading := nofun
      answered := fun c hc => by
        cases hc
        have hasked := h.asked b List.mem_cons_self hop
        rw [hself]
        change a.Saw (s.node b).pid (s.node b).blknum (s.server s.msgBlk)
        rw [h.reading b hcomm, ← hstored]
        exact hasked
      told := fun p k c hp hm => by
        obtain ⟨d, hd, hcd, -⟩ := hI.served.told p k _ hp hm
        cases hcd
        rw [hold c (hcached c hd)]
        exact h.told p k c hp hm }

/-- {lit}`rdsprocess` has passed its wait. -/
theorem take (h : Faithful a s reqs cached) (hI : Sound False 0 s reqs cached free [])
    {T : Turnstile Unit} (hcomm : s.comm = .ready ∨ s.comm = .waiting)
    (hunits : T.units = s.reqsem.units - 1)
    (hmsg : (s.node (s.next .rhnext)).op = .read → s.msgBlk = (s.node (s.next .rhnext)).blknum) :
    Kept a { s with reqsem := T }.take := by
  have hwork : s.atWork = 0 := by
    unfold Disk.atWork
    rcases hcomm with hc | hc <;> rw [hc] <;> rfl
  have hstored : s.stored = s.server := by
    unfold Disk.stored
    rcases hcomm with hc | hc <;> rw [hc]
  have hpend := hI.orders.pending
  have hnonneg := T.units_nonneg
  rw [hwork, List.drop_zero] at hpend
  cases reqs with
  | nil =>
      rw [List.length_nil] at hpend
      omega
  | cons b rest =>
      have hhead : s.next .rhnext = b := hI.shape.reqs_seg.1
      rw [hhead] at hmsg
      rcases h.kinds b List.mem_cons_self with ⟨hop, -⟩ | ⟨hop, -⟩
      · have htake : { s with reqsem := T }.take =
            ({ s with reqsem := T }.logTaken (s.node b).request).setComm (.reading b) :=
          Sound.take_read hhead hop
        rw [htake]
        refine ⟨b :: rest, cached, free, hI.shape.congr rfl rfl rfl, ?_⟩
        refine h.setComm rfl rfl rfl hstored.symm (fun c hc => ?_) nofun h.told
        cases hc
        exact hmsg hop
      · have htake : { s with reqsem := T }.take =
            ({ s with reqsem := T }.logTaken (s.node b).request).takeWrite b :=
          Sound.take_write hhead hop
        have hunlink : Shape (s.unlink b) ([] ++ rest) cached free [b] :=
          Shape.unlink_request hI.shape
        have hwrite := h.takeWrite hI hop hstored
        rw [htake]
        exact ⟨rest, b :: cached, free, hunlink.cache.congr rfl rfl rfl,
          hwrite.congr rfl rfl rfl rfl rfl h.plain fun _ _ _ hp hm => ⟨hp, hm⟩⟩

theorem rdsprocess (h : Faithful a s reqs cached) (hI : Sound False 0 s reqs cached free [])
    (hclear : Clear s .comm) (hs : s.rdsprocess = some s') : Kept a s' := by
  have hserved := hI.served
  have hpasses := hclear.2
  have hsame : Shape s reqs cached free [] := hI.shape
  unfold Disk.Passes at hpasses
  unfold Disk.rdsprocess at hs
  cases hcomm : s.comm with
  | ready =>
      rw [hcomm] at hs hpasses
      by_cases hopen : s.reqsem.Open
      · simp only [if_pos hopen] at hs
        cases hs
        exact h.take hI (Or.inl hcomm) (Turnstile.units_enter_open hopen) (hpasses hopen)
      · simp only [if_neg hopen] at hs
        cases hs
        refine ⟨reqs, cached, free, hsame.congr rfl rfl rfl,
          h.setComm rfl rfl rfl ?_ nofun nofun h.told⟩
        unfold Disk.stored
        rw [hcomm]
        rfl
  | waiting =>
      rw [hcomm] at hs hpasses
      obtain ⟨hmem, hs⟩ := Option.ite_none_right_eq_some.mp hs
      cases hs
      exact h.take hI (Or.inr hcomm) (Turnstile.units_resume hmem) (hpasses hmem)
  | reading b =>
      rw [hcomm] at hs
      cases hs
      obtain ⟨rest, rfl, -⟩ := Sound.head_of_current hserved (Or.inl hcomm)
      have hunlink : Shape (s.unlink b) ([] ++ rest) cached free [b] :=
        Shape.unlink_request hI.shape
      exact ⟨rest, b :: cached, free, hunlink.cache.congr rfl rfl rfl, h.readDone hI hcomm⟩
  | answered b =>
      obtain ⟨-, -, hphase, hmail, -⟩ := hserved.answered b hcomm
      have hsaw := h.answered b hcomm
      rw [hcomm] at hs
      cases hs
      rw [Sound.send_of_none hmail]
      refine ⟨reqs, cached, free, hsame.congr rfl rfl rfl,
        h.setComm rfl rfl rfl ?_ nofun nofun fun p k c hp hm => ?_⟩
      · unfold Disk.stored
        rw [hcomm]
        rfl
      · change upd s.mail (s.node b).pid (some (.buffer b)) p = some (.buffer c) at hm
        by_cases heq : p = (s.node b).pid
        · rw [heq, upd_self] at hm
          rw [heq, hphase] at hp
          cases hm
          cases hp
          rw [heq]
          exact hsaw
        · rw [upd_of_ne heq] at hm
          exact h.told p k c hp hm
  | told b =>
      have hnone : s.sameBlock b = some .rtnext := by
        refine hclear.1 b ?_
        rw [hcomm]
        rfl
      rw [hcomm] at hs
      change s.tellOther b = some s' at hs
      unfold Disk.tellOther at hs
      rw [hnone, Option.map_some, if_pos rfl] at hs
      cases hs
      refine ⟨reqs, cached, free, hsame.congr rfl rfl rfl,
        h.setComm rfl rfl rfl ?_ nofun nofun h.told⟩
      unfold Disk.stored
      rw [hcomm]
      rfl
  | matched b q =>
      have hcur := hserved.current
      unfold Disk.Current at hcur
      rw [hcomm] at hcur
      exact hcur.elim
  | writing blk data =>
      rw [hcomm] at hs
      cases hs
      refine ⟨reqs, cached, free, hsame.congr rfl rfl rfl,
        h.setComm rfl rfl rfl ?_ nofun nofun h.told⟩
      unfold Disk.stored
      rw [hcomm]
      rfl
  | synced b =>
      obtain ⟨rest, rfl, hne⟩ := Sound.head_of_current hserved (Or.inr hcomm)
      have hcur := hserved.current
      unfold Disk.Current at hcur
      rw [hcomm] at hcur
      rcases h.kinds b List.mem_cons_self with ⟨hop, -⟩ | ⟨hop, -⟩
      · exact absurd (hcur.2.symm.trans hop) nofun
      · exact absurd hop hne

/-!
## Every step
-/

/-- Nothing is queued or cached for a block when both searches say so. -/
theorem missing (h : Faithful a s reqs cached) (hshape : Shape s reqs cached free [])
    (hnone : s.NoData blk) : Missing (s.entries reqs) (s.entries cached) blk := by
  refine ⟨h.no_pending hshape hnone.1, fun e he hh => ?_⟩
  have hcache := hnone.2
  have hstop : Ptr.ctnext ∉ cached := fun hm =>
    layout.tail_not_node (q := .chnext) (Or.inr rfl) (hshape.isBuffer (b := .ctnext) (by simp [hm]))
  rw [hshape.seekCache_eq] at hcache
  obtain ⟨c, hc, rfl⟩ := List.mem_map.mp he
  obtain ⟨hvalid, hblk⟩ := holds_entry.mp hh
  exact List.find?_eq_none.mp (find_none hstop hcache) c hc (decide_eq_true ⟨hblk, hvalid⟩)

/-- A process that was released goes on with its unit. -/
theorem resumed (h : Faithful a s reqs cached) (hI : Sound False 0 s reqs cached free [])
    (hmem : pid ∈ s.availsem.granted) (hclear : Clear s (.alloc pid))
    (hs : { s with availsem := s.availsem.resume pid }.goOn pid (s.phase pid) = some s') :
    s'.panicked = s.panicked ∧ Kept (a.putSome (s.phase pid).writes) s' ∨
    s'.panicked = true ∧ Kept a s' := by
  obtain ⟨hall, -⟩ := Sound.goOn_eq hs
  have hout : s.Outside pid := by
    constructor
    · intro k hk
      rw [hk] at hall
      cases hall
    · intro hk
      rw [hk] at hall
      cases hall
  have hresumed : Sound False 1 { s with availsem := s.availsem.resume pid } reqs cached free [] :=
    { shape := hI.shape.congr rfl rfl rfl
      served := hI.served.congr rfl rfl rfl fun _ => ⟨rfl, rfl, rfl, rfl⟩
      orders := hI.orders.congr rfl rfl rfl fun _ _ => rfl
      available := False.elim
      inside := (hI.inside.resume hmem).1 }
  have hsame : Faithful a { s with availsem := s.availsem.resume pid } reqs cached :=
    h.congr rfl rfl rfl rfl rfl h.plain fun _ _ _ hp hm => ⟨hp, hm⟩
  rcases hsame.goOn hresumed hout (hI.inside.resume hmem).2 (h.plain pid)
    (fun blk hblk => h.missing hI.shape (hclear blk hblk)) hs with ⟨hpan, -, hkept⟩ | hpanic
  · exact Or.inl ⟨hpan, hkept⟩
  · exact Or.inr hpanic

end Faithful

end Rds
end BbbXinu
