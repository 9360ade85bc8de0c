import BbbXinu.Rds.Machine

/-!
# Who waits for which buffer

A reader waits for a message until its request has been answered; then the message names
a buffer of the cache that has one reference, the reader's.  Nobody else is told of that
buffer.
-/

namespace BbbXinu
namespace Rds

/-- A request that somebody waits for. -/
def RdBuff.Asks (n : RdBuff) : Prop := n.op = .read ∨ n.op = .sync

namespace Disk

/-- The process behind a request waits, and has not been told anything. -/
def Awaits (s : Disk) (n : RdBuff) : Prop :=
  match n.op with
  | .read => s.phase n.pid = .receiving n.blknum ∧ s.mail n.pid = none
  | .sync => s.phase n.pid = .syncing ∧ s.mail n.pid = none
  | .write => True
  | .none => False

/-- The process waits for no message. -/
def Outside (s : Disk) (pid : Int) : Prop :=
  (∀ blk, s.phase pid ≠ .receiving blk) ∧ s.phase pid ≠ .syncing

/-- The request that {lit}`rdsprocess` works at is the first of the queue. -/
def Current (s : Disk) (reqs : List Ptr) : Prop :=
  match s.comm with
  | .reading b => reqs.head? = some b ∧ (s.node b).op = .read
  | .synced b => reqs.head? = some b ∧ (s.node b).op = .sync
  | .matched _ _ => False
  | _ => True

end Disk

/-- Requests, answers and readers agree. -/
structure Served (s : Disk) (reqs cached : List Ptr) : Prop where
  current : s.Current reqs
  requested : ∀ b ∈ reqs, s.comm ≠ .synced b → s.Awaits (s.node b)
  distinct : ∀ b ∈ reqs, ∀ c ∈ reqs, s.comm ≠ .synced b → s.comm ≠ .synced c →
    (s.node b).Asks → (s.node c).Asks → (s.node b).pid = (s.node c).pid → b = c
  answered : ∀ b, s.comm = .answered b → b ∈ cached ∧ (s.node b).refcnt = 1 ∧
    s.phase (s.node b).pid = .receiving (s.node b).blknum ∧ s.mail (s.node b).pid = none ∧
    ∀ c ∈ reqs, (s.node c).Asks → (s.node c).pid ≠ (s.node b).pid
  told : ∀ pid blk m, s.phase pid = .receiving blk → s.mail pid = some m →
    ∃ b ∈ cached, m = .buffer b ∧ (s.node b).refcnt = 1 ∧ (s.node b).blknum = blk ∧
      s.comm ≠ .answered b
  single : ∀ pid pid' blk blk' m, s.phase pid = .receiving blk → s.phase pid' = .receiving blk' →
    s.mail pid = some m → s.mail pid' = some m → pid = pid'
  claimed : ∀ b ∈ cached, 0 < (s.node b).refcnt → s.comm = .answered b ∨
    ∃ pid blk, s.phase pid = .receiving blk ∧ s.mail pid = some (.buffer b)

namespace Served

variable {s s' : Disk} {reqs cached cached' : List Ptr} {b : Ptr} {pid : Int} {blk : UInt32}

/-!
## What the parts imply
-/

/-- Whoever is behind a request has no message. -/
theorem asked (h : Served s reqs cached) (hb : b ∈ reqs) (hcomm : s.comm ≠ .synced b)
    (hasks : (s.node b).Asks) : s.mail (s.node b).pid = none ∧ ¬s.Outside (s.node b).pid := by
  have haw := h.requested b hb hcomm
  unfold Disk.Awaits at haw
  rcases hasks with hop | hop
  · rw [hop] at haw
    exact ⟨haw.2, fun hout => hout.1 _ haw.1⟩
  · rw [hop] at haw
    exact ⟨haw.2, fun hout => hout.2 haw.1⟩

theorem awaits_congr {n : RdBuff} (h : s.Awaits n) (hphase : n.Asks → s'.phase n.pid = s.phase n.pid)
    (hmail : n.Asks → s'.mail n.pid = s.mail n.pid) : s'.Awaits n := by
  unfold Disk.Awaits at *
  cases hop : n.op with
  | read =>
      rw [hop] at h
      exact ⟨(hphase (Or.inl hop)).trans h.1, (hmail (Or.inl hop)).trans h.2⟩
  | write => trivial
  | sync =>
      rw [hop] at h
      exact ⟨(hphase (Or.inr hop)).trans h.1, (hmail (Or.inr hop)).trans h.2⟩
  | none =>
      rw [hop] at h
      exact h

/-- The answered reader is not told yet. -/
theorem told_ne (h : Served s reqs cached) (hphase : s.phase pid = .receiving blk)
    (hmail : s.mail pid = some (.buffer b)) : s.comm ≠ .answered b := by
  obtain ⟨c, -, hc, -, -, hcomm⟩ := h.told pid blk _ hphase hmail
  cases hc
  exact hcomm

/-!
## Steps of the processes
-/

/-- Links, semaphores, the contents of blocks and what a routine returned do not matter. -/
theorem congr (h : Served s reqs cached) (hphase : s'.phase = s.phase) (hmail : s'.mail = s.mail)
    (hcomm : s'.comm = s.comm)
    (hnode : ∀ c, (s'.node c).op = (s.node c).op ∧ (s'.node c).refcnt = (s.node c).refcnt ∧
      (s'.node c).blknum = (s.node c).blknum ∧ (s'.node c).pid = (s.node c).pid) :
    Served s' reqs cached where
  current := by
    have hcur := h.current
    unfold Disk.Current at *
    rw [hcomm]
    split at hcur
    · rename_i c hc
      rw [(hnode c).1]
      exact hcur
    · rename_i c hc
      rw [(hnode c).1]
      exact hcur
    · exact hcur
    · trivial
  requested := fun c hc hne => by
    rw [hcomm] at hne
    have haw := h.requested c hc hne
    unfold Disk.Awaits at *
    rw [hphase, hmail, (hnode c).1, (hnode c).2.2.1, (hnode c).2.2.2]
    exact haw
  distinct := fun c hc d hd hcne hdne hcask hdask hpid => by
    unfold RdBuff.Asks at *
    rw [hcomm] at hcne hdne
    rw [(hnode _).1] at hcask hdask
    rw [(hnode _).2.2.2, (hnode _).2.2.2] at hpid
    exact h.distinct c hc d hd hcne hdne hcask hdask hpid
  answered := fun c hc => by
    unfold RdBuff.Asks at *
    rw [hcomm] at hc
    obtain ⟨h1, h2, h3, h4, h5⟩ := h.answered c hc
    rw [(hnode c).2.1, (hnode c).2.2.2, (hnode c).2.2.1, hphase, hmail]
    refine ⟨h1, h2, h3, h4, fun d hd hdask => ?_⟩
    rw [(hnode d).1] at hdask
    rw [(hnode d).2.2.2]
    exact h5 d hd hdask
  told := fun p k m hp hm => by
    rw [hphase] at hp
    rw [hmail] at hm
    obtain ⟨c, h1, h2, h3, h4, h5⟩ := h.told p k m hp hm
    refine ⟨c, h1, h2, ?_, ?_, ?_⟩
    · rw [(hnode c).2.1]
      exact h3
    · rw [(hnode c).2.2.1]
      exact h4
    · rw [hcomm]
      exact h5
  single := by
    rw [hphase, hmail]
    exact h.single
  claimed := fun c hc hpos => by
    rw [(hnode c).2.1] at hpos
    rw [hcomm, hphase, hmail]
    exact h.claimed c hc hpos

/-- An unreferenced buffer is taken out of the cache. -/
theorem uncache (h : Served s reqs cached) (hsub : ∀ c ∈ cached', c ∈ cached)
    (hkeep : ∀ c ∈ cached, 0 < (s.node c).refcnt → c ∈ cached') : Served s reqs cached' where
  current := h.current
  requested := h.requested
  distinct := h.distinct
  answered := fun c hc => by
    obtain ⟨h1, h2, h3⟩ := h.answered c hc
    exact ⟨hkeep c h1 (by omega), h2, h3⟩
  told := fun p k m hp hm => by
    obtain ⟨c, h1, h2, h3, h4⟩ := h.told p k m hp hm
    exact ⟨c, hkeep c h1 (by omega), h2, h3, h4⟩
  single := h.single
  claimed := fun c hc hpos => h.claimed c (hsub c hc) hpos

/-- A process that waits for no message, or has its message, changes its phase to one without
a message. -/
theorem setPhase (h : Served s reqs cached) {ph : Phase}
    (hout : s.Outside pid ∨ s.phase pid = .syncing ∧ s.mail pid ≠ none)
    (hph : (∀ k, ph ≠ .receiving k) ∧ ph ≠ .syncing) (hnode : s'.node = s.node)
    (hcomm : s'.comm = s.comm) (hphase : s'.phase = upd s.phase pid ph)
    (hmail : ∀ p, p ≠ pid → s'.mail p = s.mail p) : Served s' reqs cached := by
  have hne : ∀ p k, s'.phase p = .receiving k → p ≠ pid ∧ s.phase p = .receiving k := by
    intro p k hp
    rw [hphase] at hp
    by_cases heq : p = pid
    · rw [heq, upd_self] at hp
      exact absurd hp (hph.1 k)
    · rw [upd_of_ne heq] at hp
      exact ⟨heq, hp⟩
  have hrecv : ∀ p k, s.phase p = .receiving k → p ≠ pid := by
    rintro p k hp rfl
    rcases hout with hout | hsync
    · exact hout.1 k hp
    · rw [hsync.1] at hp
      cases hp
  have hreq : ∀ c ∈ reqs, s.comm ≠ .synced c → (s.node c).Asks → (s.node c).pid ≠ pid := by
    rintro c hc hcne hask rfl
    obtain ⟨hnone, hin⟩ := h.asked hc hcne hask
    rcases hout with hout | hsync
    · exact hin hout
    · exact hsync.2 hnone
  have hkeep : ∀ p, p ≠ pid → s'.phase p = s.phase p := fun p hp => by
    rw [hphase, upd_of_ne hp]
  exact
    { current := by
        have hcur := h.current
        unfold Disk.Current at *
        rw [hcomm, hnode]
        exact hcur
      requested := fun c hc hcne => by
        rw [hcomm] at hcne
        rw [hnode]
        exact awaits_congr (h.requested c hc hcne) (fun hask => hkeep _ (hreq c hc hcne hask))
          fun hask => hmail _ (hreq c hc hcne hask)
      distinct := by
        rw [hnode, hcomm]
        exact h.distinct
      answered := fun c hc => by
        rw [hcomm] at hc
        obtain ⟨h1, h2, h3, h4, h5⟩ := h.answered c hc
        have hp := hrecv _ _ h3
        rw [hnode, hkeep _ hp, hmail _ hp]
        exact ⟨h1, h2, h3, h4, h5⟩
      told := fun p k m hp hm => by
        obtain ⟨hpne, hp⟩ := hne p k hp
        rw [hmail p hpne] at hm
        rw [hnode, hcomm]
        exact h.told p k m hp hm
      single := fun p p' k k' m hp hp' hm hm' => by
        obtain ⟨hpne, hp⟩ := hne p k hp
        obtain ⟨hpne', hp'⟩ := hne p' k' hp'
        rw [hmail p hpne] at hm
        rw [hmail p' hpne'] at hm'
        exact h.single p p' k k' m hp hp' hm hm'
      claimed := fun c hc hpos => by
        rw [hnode] at hpos
        rw [hcomm]
        rcases h.claimed c hc hpos with hcur | ⟨p, k, hp, hm⟩
        · exact Or.inl hcur
        · have hpne := hrecv p k hp
          refine Or.inr ⟨p, k, ?_, ?_⟩
          · rw [hkeep p hpne]
            exact hp
          · rw [hmail p hpne]
            exact hm }

/-- A process puts a request at the end of the queue, and waits for its answer if it asks for
one. -/
theorem put (h : Served s reqs cached) {n : RdBuff} (hb : b ∉ reqs) (hbc : b ∉ cached)
    (hout : s.Outside pid) (hnode : s'.node = upd s.node b n) (hcomm : s'.comm = s.comm)
    (hphase : ∀ p, p ≠ pid → s'.phase p = s.phase p)
    (hmail : ∀ p, p ≠ pid → s'.mail p = s.mail p) (hnew : s'.Awaits n) (hpid : n.Asks → n.pid = pid)
    (hfresh : ∀ k, s'.phase pid = .receiving k → s'.mail pid = none) :
    Served s' (reqs ++ [b]) cached := by
  have hrecv : ∀ p k, s.phase p = .receiving k → p ≠ pid := by
    rintro p k hp rfl
    exact hout.1 k hp
  have hreq : ∀ c ∈ reqs, s.comm ≠ .synced c → (s.node c).Asks → (s.node c).pid ≠ pid := by
    rintro c hc hcne hask rfl
    exact (h.asked hc hcne hask).2 hout
  have hold : ∀ c, c ≠ b → s'.node c = s.node c := fun c hc => by
    rw [hnode, upd_of_ne hc]
  have hself : s'.node b = n := by rw [hnode, upd_self]
  have hreqNe : ∀ c ∈ reqs, c ≠ b := fun c hc heq => hb (heq ▸ hc)
  have hcacheNe : ∀ c ∈ cached, c ≠ b := fun c hc heq => hbc (heq ▸ hc)
  have htold : ∀ p k m, s'.phase p = .receiving k → s'.mail p = some m →
      s.phase p = .receiving k ∧ s.mail p = some m := by
    intro p k m hp hm
    by_cases heq : p = pid
    · rw [heq] at hp hm
      rw [hfresh k hp] at hm
      cases hm
    · rw [hphase p heq] at hp
      rw [hmail p heq] at hm
      exact ⟨hp, hm⟩
  exact
    { current := by
        have hcur := h.current
        unfold Disk.Current at *
        rw [hcomm]
        split at hcur
        · rename_i c _
          obtain ⟨rest, hrest⟩ := List.head?_eq_some_iff.mp hcur.1
          rw [hrest, hold c (hreqNe c (by rw [hrest]; simp))]
          exact ⟨rfl, hcur.2⟩
        · rename_i c _
          obtain ⟨rest, hrest⟩ := List.head?_eq_some_iff.mp hcur.1
          rw [hrest, hold c (hreqNe c (by rw [hrest]; simp))]
          exact ⟨rfl, hcur.2⟩
        · exact hcur
        · trivial
      requested := fun c hc hcne => by
        rw [hcomm] at hcne
        rcases List.mem_append.mp hc with hc | hc
        · rw [hold c (hreqNe c hc)]
          exact awaits_congr (h.requested c hc hcne)
            (fun hask => hphase _ (hreq c hc hcne hask)) fun hask => hmail _ (hreq c hc hcne hask)
        · rw [List.mem_singleton.mp hc, hself]
          exact hnew
      distinct := fun c hc d hd hcne hdne hcask hdask heq => by
        rw [hcomm] at hcne hdne
        rcases List.mem_append.mp hc with hc | hc <;> rcases List.mem_append.mp hd with hd | hd
        · rw [hold c (hreqNe c hc)] at hcask heq
          rw [hold d (hreqNe d hd)] at hdask heq
          exact h.distinct c hc d hd hcne hdne hcask hdask heq
        · rw [List.mem_singleton.mp hd, hself] at hdask heq
          rw [hold c (hreqNe c hc)] at hcask heq
          exact absurd (heq.trans (hpid hdask)) (hreq c hc hcne hcask)
        · rw [List.mem_singleton.mp hc, hself] at hcask heq
          rw [hold d (hreqNe d hd)] at hdask heq
          exact absurd (heq.symm.trans (hpid hcask)) (hreq d hd hdne hdask)
        · exact (List.mem_singleton.mp hc).trans (List.mem_singleton.mp hd).symm
      answered := fun c hc => by
        rw [hcomm] at hc
        obtain ⟨h1, h2, h3, h4, h5⟩ := h.answered c hc
        have hp := hrecv _ _ h3
        rw [hold c (hcacheNe c h1), hphase _ hp, hmail _ hp]
        refine ⟨h1, h2, h3, h4, fun d hd hask => ?_⟩
        rcases List.mem_append.mp hd with hd | hd
        · rw [hold d (hreqNe d hd)] at hask ⊢
          exact h5 d hd hask
        · rw [List.mem_singleton.mp hd, hself] at hask ⊢
          rw [hpid hask]
          exact fun heq => hp heq.symm
      told := fun p k m hp hm => by
        obtain ⟨hp, hm⟩ := htold p k m hp hm
        obtain ⟨c, h1, h2⟩ := h.told p k m hp hm
        rw [hcomm]
        refine ⟨c, h1, ?_⟩
        rw [hold c (hcacheNe c h1)]
        exact h2
      single := fun p p' k k' m hp hp' hm hm' => by
        obtain ⟨hp, hm⟩ := htold p k m hp hm
        obtain ⟨hp', hm'⟩ := htold p' k' m hp' hm'
        exact h.single p p' k k' m hp hp' hm hm'
      claimed := fun c hc hpos => by
        rw [hold c (hcacheNe c hc)] at hpos
        rw [hcomm]
        rcases h.claimed c hc hpos with hcur | ⟨p, k, hp, hm⟩
        · exact Or.inl hcur
        · have hpne := hrecv p k hp
          refine Or.inr ⟨p, k, ?_, ?_⟩
          · rw [hphase p hpne]
            exact hp
          · rw [hmail p hpne]
            exact hm }

/-- A reader takes its block and drops its reference. -/
theorem wake (h : Served s reqs cached) (hp : s.phase pid = .receiving blk)
    (hm : s.mail pid = some (.buffer b)) (hb : b ∉ reqs)
    (hnode : ∀ c, c ≠ b → s'.node c = s.node c) (hzero : (s'.node b).refcnt ≤ 0)
    (hcomm : s'.comm = s.comm) (hphase : s'.phase = upd s.phase pid .idle)
    (hmail : s'.mail = upd s.mail pid none) : Served s' reqs cached := by
  have hreqNe : ∀ c ∈ reqs, c ≠ b := fun c hc heq => hb (heq ▸ hc)
  have hkeep : ∀ p, p ≠ pid → s'.phase p = s.phase p ∧ s'.mail p = s.mail p := fun p hpne => by
    rw [hphase, hmail]
    exact ⟨upd_of_ne hpne, upd_of_ne hpne⟩
  have hbusy : ∀ p, s.mail p = none → p ≠ pid := by
    rintro p hnone rfl
    rw [hm] at hnone
    cases hnone
  have htold : ∀ p k m, s'.phase p = .receiving k → s'.mail p = some m →
      p ≠ pid ∧ s.phase p = .receiving k ∧ s.mail p = some m := by
    intro p k m hp' hm'
    by_cases heq : p = pid
    · rw [heq, hphase, upd_self] at hp'
      cases hp'
    · rw [(hkeep p heq).1] at hp'
      rw [(hkeep p heq).2] at hm'
      exact ⟨heq, hp', hm'⟩
  -- the buffer has one reader, who is the one that takes it
  have hother : ∀ p k m, p ≠ pid → s.phase p = .receiving k → s.mail p = some m →
      m ≠ .buffer b := by
    rintro p k m hpne hp' hm' rfl
    exact hpne (h.single p pid k blk _ hp' hp hm' hm)
  exact
    { current := by
        have hcur := h.current
        unfold Disk.Current at *
        rw [hcomm]
        split at hcur
        · rename_i c _
          rw [hnode c (hreqNe c (List.mem_of_mem_head? hcur.1))]
          exact hcur
        · rename_i c _
          rw [hnode c (hreqNe c (List.mem_of_mem_head? hcur.1))]
          exact hcur
        · exact hcur
        · trivial
      requested := fun c hc hcne => by
        rw [hcomm] at hcne
        rw [hnode c (hreqNe c hc)]
        have hne : (s.node c).Asks → (s.node c).pid ≠ pid := fun hask =>
          hbusy _ (h.asked hc hcne hask).1
        exact awaits_congr (h.requested c hc hcne) (fun hask => (hkeep _ (hne hask)).1)
          fun hask => (hkeep _ (hne hask)).2
      distinct := fun c hc d hd => by
        rw [hcomm, hnode c (hreqNe c hc), hnode d (hreqNe d hd)]
        exact h.distinct c hc d hd
      answered := fun c hc => by
        rw [hcomm] at hc
        obtain ⟨h1, h2, h3, h4, h5⟩ := h.answered c hc
        have hcb : c ≠ b := by
          rintro rfl
          exact h.told_ne hp hm hc
        have hpne := hbusy _ h4
        rw [hnode c hcb, (hkeep _ hpne).1, (hkeep _ hpne).2]
        refine ⟨h1, h2, h3, h4, fun d hd hask => ?_⟩
        rw [hnode d (hreqNe d hd)] at hask ⊢
        exact h5 d hd hask
      told := fun p k m hp' hm' => by
        obtain ⟨hpne, hp', hm'⟩ := htold p k m hp' hm'
        obtain ⟨c, h1, rfl, h3⟩ := h.told p k m hp' hm'
        have hcb : c ≠ b := fun heq => hother p k _ hpne hp' hm' (congrArg Msg.buffer heq)
        rw [hcomm]
        refine ⟨c, h1, rfl, ?_⟩
        rw [hnode c hcb]
        exact h3
      single := fun p p' k k' m hp hp' hm hm' => by
        obtain ⟨-, hp, hm⟩ := htold p k m hp hm
        obtain ⟨-, hp', hm'⟩ := htold p' k' m hp' hm'
        exact h.single p p' k k' m hp hp' hm hm'
      claimed := fun c hc hpos => by
        have hcb : c ≠ b := by
          rintro rfl
          exact absurd hzero (by omega)
        rw [hnode c hcb] at hpos
        rw [hcomm]
        rcases h.claimed c hc hpos with hcur | ⟨p, k, hp', hm'⟩
        · exact Or.inl hcur
        · have hpne : p ≠ pid := by
            rintro rfl
            rw [hm] at hm'
            cases hm'
            exact hcb rfl
          exact Or.inr ⟨p, k, (hkeep p hpne).1.trans hp', (hkeep p hpne).2.trans hm'⟩ }

/-!
## Steps of the communication process
-/

section Comm

variable {rest : List Ptr}

/-- {lit}`rdsprocess` goes from one place to another without telling anybody anything. -/
theorem setComm (h : Served s reqs cached) (hsynced : ∀ b, s.comm ≠ .synced b)
    (hanswered : ∀ b, s.comm ≠ .answered b) (hanswered' : ∀ b, s'.comm ≠ .answered b)
    (hcurrent : s'.Current reqs)
    (hnode : s'.node = s.node) (hphase : s'.phase = s.phase) (hmail : s'.mail = s.mail) :
    Served s' reqs cached where
  current := hcurrent
  requested := fun c hc _ => by
    have haw := h.requested c hc (hsynced c)
    rw [hnode]
    exact awaits_congr haw (fun _ => by rw [hphase]) fun _ => by rw [hmail]
  distinct := fun c hc d hd _ _ => by
    rw [hnode]
    exact h.distinct c hc d hd (hsynced c) (hsynced d)
  answered := fun c hc => absurd hc (hanswered' c)
  told := fun p k m hp hm => by
    rw [hphase] at hp
    rw [hmail] at hm
    rw [hnode]
    obtain ⟨c, h1, h2, h3, h4, -⟩ := h.told p k m hp hm
    exact ⟨c, h1, h2, h3, h4, hanswered' c⟩
  single := by
    rw [hphase, hmail]
    exact h.single
  claimed := fun c hc hpos => by
    rw [hnode] at hpos
    rw [hphase, hmail]
    rcases h.claimed c hc hpos with hcur | hread
    · exact absurd hcur (hanswered c)
    · exact Or.inr hread

/-- A write request goes from the queue to the cache. -/
theorem takeWrite (h : Served s (b :: rest) cached) (hb : b ∉ rest) (hbc : b ∉ cached)
    (hsynced : ∀ c, s.comm ≠ .synced c) (hanswered : ∀ c, s.comm ≠ .answered c)
    {data : Block} (hcomm : s'.comm = .writing blk data)
    (hnode : ∀ c, c ≠ b → s'.node c = s.node c) (hzero : (s'.node b).refcnt = 0)
    (hphase : s'.phase = s.phase) (hmail : s'.mail = s.mail) : Served s' rest (b :: cached) := by
  have hreqNe : ∀ c ∈ rest, c ≠ b := fun c hc heq => hb (heq ▸ hc)
  have hcacheNe : ∀ c ∈ cached, c ≠ b := fun c hc heq => hbc (heq ▸ hc)
  exact
    { current := by
        unfold Disk.Current
        rw [hcomm]
        trivial
      requested := fun c hc _ => by
        have haw := h.requested c (List.mem_cons_of_mem b hc) (hsynced c)
        rw [hnode c (hreqNe c hc)]
        exact awaits_congr haw (fun _ => by rw [hphase]) fun _ => by rw [hmail]
      distinct := fun c hc d hd _ _ => by
        rw [hnode c (hreqNe c hc), hnode d (hreqNe d hd)]
        exact h.distinct c (List.mem_cons_of_mem b hc) d (List.mem_cons_of_mem b hd) (hsynced c)
          (hsynced d)
      answered := fun c hc => by
        rw [hcomm] at hc
        cases hc
      told := fun p k m hp hm => by
        rw [hphase] at hp
        rw [hmail] at hm
        obtain ⟨c, h1, h2, h3, h4, -⟩ := h.told p k m hp hm
        refine ⟨c, List.mem_cons_of_mem b h1, h2, ?_⟩
        rw [hnode c (hcacheNe c h1), hcomm]
        exact ⟨h3, h4, nofun⟩
      single := by
        rw [hphase, hmail]
        exact h.single
      claimed := fun c hc hpos => by
        rcases List.mem_cons.mp hc with rfl | hc
        · rw [hzero] at hpos
          exact absurd hpos (Int.lt_irrefl 0)
        · rw [hnode c (hcacheNe c hc)] at hpos
          rw [hphase, hmail]
          rcases h.claimed c hc hpos with hcur | hread
          · exact absurd hcur (hanswered c)
          · exact Or.inr hread }

/-- The process behind a request to synchronize is told that it is done. -/
theorem takeSync (h : Served s (b :: rest) cached) (hop : (s.node b).op = .sync)
    (hsynced : ∀ c, s.comm ≠ .synced c) (hanswered : ∀ c, s.comm ≠ .answered c)
    (hcomm : s'.comm = .synced b) (hnode : s'.node = s.node) (hphase : s'.phase = s.phase)
    (hmail : ∀ p, p ≠ (s.node b).pid → s'.mail p = s.mail p) : Served s' (b :: rest) cached := by
  have hb : b ∈ b :: rest := List.mem_cons_self
  have hsync : s.phase (s.node b).pid = .syncing := by
    have haw := h.requested b hb (hsynced b)
    unfold Disk.Awaits at haw
    rw [hop] at haw
    exact haw.1
  have hrecv : ∀ p k, s.phase p = .receiving k → p ≠ (s.node b).pid := by
    rintro p k hp rfl
    rw [hsync] at hp
    cases hp
  have hask : (s.node b).Asks := Or.inr hop
  exact
    { current := by
        unfold Disk.Current
        rw [hcomm, hnode]
        exact ⟨rfl, hop⟩
      requested := fun c hc hcne => by
        rw [hcomm] at hcne
        have hcb : c ≠ b := fun heq => hcne (congrArg Comm.synced heq.symm)
        rw [hnode]
        refine awaits_congr (h.requested c hc (hsynced c)) (fun _ => by rw [hphase]) fun hcask => ?_
        exact hmail _ fun heq =>
          hcb (h.distinct c hc b hb (hsynced c) (hsynced b) hcask hask heq)
      distinct := fun c hc d hd _ _ => by
        rw [hnode]
        exact h.distinct c hc d hd (hsynced c) (hsynced d)
      answered := fun c hc => by
        rw [hcomm] at hc
        cases hc
      told := fun p k m hp hm => by
        rw [hphase] at hp
        rw [hmail p (hrecv p k hp)] at hm
        obtain ⟨c, h1, h2, h3, h4, -⟩ := h.told p k m hp hm
        rw [hnode, hcomm]
        exact ⟨c, h1, h2, h3, h4, nofun⟩
      single := fun p p' k k' m hp hp' hm hm' => by
        rw [hphase] at hp hp'
        rw [hmail p (hrecv p k hp)] at hm
        rw [hmail p' (hrecv p' k' hp')] at hm'
        exact h.single p p' k k' m hp hp' hm hm'
      claimed := fun c hc hpos => by
        rw [hnode] at hpos
        rcases h.claimed c hc hpos with hcur | ⟨p, k, hp, hm⟩
        · exact absurd hcur (hanswered c)
        · refine Or.inr ⟨p, k, ?_, ?_⟩
          · rw [hphase]
            exact hp
          · rw [hmail p (hrecv p k hp)]
            exact hm }

/-- The request leaves the queue after that. -/
theorem syncDone (h : Served s (b :: rest) cached) (hb : b ∉ rest) (hsynced : s.comm = .synced b)
    (hcomm : s'.comm = .ready) (hnode : s'.node = s.node) (hphase : s'.phase = s.phase)
    (hmail : s'.mail = s.mail) : Served s' rest cached := by
  have hne : ∀ c ∈ rest, s.comm ≠ .synced c := by
    intro c hc heq
    rw [hsynced] at heq
    cases heq
    exact hb hc
  exact
    { current := by
        unfold Disk.Current
        rw [hcomm]
        trivial
      requested := fun c hc _ => by
        have haw := h.requested c (List.mem_cons_of_mem b hc) (hne c hc)
        rw [hnode]
        exact awaits_congr haw (fun _ => by rw [hphase]) fun _ => by rw [hmail]
      distinct := fun c hc d hd _ _ => by
        rw [hnode]
        exact h.distinct c (List.mem_cons_of_mem b hc) d (List.mem_cons_of_mem b hd) (hne c hc)
          (hne d hd)
      answered := fun c hc => by
        rw [hcomm] at hc
        cases hc
      told := fun p k m hp hm => by
        rw [hphase] at hp
        rw [hmail] at hm
        obtain ⟨c, h1, h2, h3, h4, -⟩ := h.told p k m hp hm
        rw [hnode, hcomm]
        exact ⟨c, h1, h2, h3, h4, nofun⟩
      single := by
        rw [hphase, hmail]
        exact h.single
      claimed := fun c hc hpos => by
        rw [hnode] at hpos
        rw [hphase, hmail]
        rcases h.claimed c hc hpos with hcur | hread
        · rw [hsynced] at hcur
          cases hcur
        · exact Or.inr hread }

/-- The server has answered: the buffer goes to the cache with a reference. -/
theorem readDone (h : Served s (b :: rest) cached) (hb : b ∉ rest) (hbc : b ∉ cached)
    (hreading : s.comm = .reading b) (hcomm : s'.comm = .answered b)
    (hnode : ∀ c, c ≠ b → s'.node c = s.node c) (hone : (s'.node b).refcnt = 1)
    (hpid : (s'.node b).pid = (s.node b).pid) (hblk : (s'.node b).blknum = (s.node b).blknum)
    (hphase : s'.phase = s.phase) (hmail : s'.mail = s.mail) : Served s' rest (b :: cached) := by
  have hreqNe : ∀ c ∈ rest, c ≠ b := fun c hc heq => hb (heq ▸ hc)
  have hcacheNe : ∀ c ∈ cached, c ≠ b := fun c hc heq => hbc (heq ▸ hc)
  have hsynced : ∀ c, s.comm ≠ .synced c := fun c heq => by
    rw [hreading] at heq
    cases heq
  have hmem : b ∈ b :: rest := List.mem_cons_self
  have hop : (s.node b).op = .read := by
    have hcur := h.current
    unfold Disk.Current at hcur
    rw [hreading] at hcur
    exact hcur.2
  have haw : s.phase (s.node b).pid = .receiving (s.node b).blknum ∧
      s.mail (s.node b).pid = none := by
    have haw := h.requested b hmem (hsynced b)
    unfold Disk.Awaits at haw
    rw [hop] at haw
    exact haw
  exact
    { current := by
        unfold Disk.Current
        rw [hcomm]
        trivial
      requested := fun c hc _ => by
        have haw := h.requested c (List.mem_cons_of_mem b hc) (hsynced c)
        rw [hnode c (hreqNe c hc)]
        exact awaits_congr haw (fun _ => by rw [hphase]) fun _ => by rw [hmail]
      distinct := fun c hc d hd _ _ => by
        rw [hnode c (hreqNe c hc), hnode d (hreqNe d hd)]
        exact h.distinct c (List.mem_cons_of_mem b hc) d (List.mem_cons_of_mem b hd) (hsynced c)
          (hsynced d)
      answered := fun c hc => by
        rw [hcomm] at hc
        cases hc
        rw [hpid, hblk, hphase, hmail]
        refine ⟨List.mem_cons_self, hone, haw.1, haw.2, fun d hd hask heq => ?_⟩
        rw [hnode d (hreqNe d hd)] at hask heq
        exact hreqNe d hd (h.distinct d (List.mem_cons_of_mem b hd) b hmem (hsynced d) (hsynced b)
          hask (Or.inl hop) heq)
      told := fun p k m hp hm => by
        rw [hphase] at hp
        rw [hmail] at hm
        obtain ⟨c, h1, h2, h3, h4, -⟩ := h.told p k m hp hm
        refine ⟨c, List.mem_cons_of_mem b h1, h2, ?_⟩
        rw [hnode c (hcacheNe c h1), hcomm]
        exact ⟨h3, h4, fun heq => hcacheNe c h1 (Comm.answered.inj heq).symm⟩
      single := by
        rw [hphase, hmail]
        exact h.single
      claimed := fun c hc hpos => by
        rcases List.mem_cons.mp hc with rfl | hc
        · exact Or.inl hcomm
        · rw [hnode c (hcacheNe c hc)] at hpos
          rw [hphase, hmail]
          rcases h.claimed c hc hpos with hcur | hread
          · rw [hreading] at hcur
            cases hcur
          · exact Or.inr hread }

/-- The reader is told where its block is. -/
theorem tell (h : Served s reqs cached) (hanswered : s.comm = .answered b)
    (hcomm : s'.comm = .told b) (hnode : s'.node = s.node) (hphase : s'.phase = s.phase)
    (hmail : s'.mail = upd s.mail (s.node b).pid (some (.buffer b))) : Served s' reqs cached := by
  obtain ⟨hb, hone, hp, hm, hreq⟩ := h.answered b hanswered
  have hsynced : ∀ c, s.comm ≠ .synced c := fun c heq => by
    rw [hanswered] at heq
    cases heq
  have hother : ∀ p, p ≠ (s.node b).pid → s'.mail p = s.mail p := fun p hpne => by
    rw [hmail, upd_of_ne hpne]
  have hself : s'.mail (s.node b).pid = some (.buffer b) := by rw [hmail, upd_self]
  have hold : ∀ p k m, s.phase p = .receiving k → s.mail p = some m → m ≠ .buffer b := by
    rintro p k m hp' hm' rfl
    exact h.told_ne hp' hm' hanswered
  exact
    { current := by
        unfold Disk.Current
        rw [hcomm]
        trivial
      requested := fun c hc _ => by
        rw [hnode]
        exact awaits_congr (h.requested c hc (hsynced c)) (fun _ => by rw [hphase])
          fun hask => hother _ (hreq c hc hask)
      distinct := fun c hc d hd _ _ => by
        rw [hnode]
        exact h.distinct c hc d hd (hsynced c) (hsynced d)
      answered := fun c hc => by
        rw [hcomm] at hc
        cases hc
      told := fun p k m hp' hm' => by
        rw [hphase] at hp'
        rw [hnode, hcomm]
        by_cases heq : p = (s.node b).pid
        · rw [heq] at hp' hm'
          rw [hself] at hm'
          cases hm'
          rw [hp] at hp'
          cases hp'
          exact ⟨b, hb, rfl, hone, rfl, nofun⟩
        · rw [hother p heq] at hm'
          obtain ⟨c, h1, h2, h3, h4, -⟩ := h.told p k m hp' hm'
          exact ⟨c, h1, h2, h3, h4, nofun⟩
      single := fun p p' k k' m hp' hp'' hm' hm'' => by
        rw [hphase] at hp' hp''
        by_cases heq : p = (s.node b).pid <;> by_cases heq' : p' = (s.node b).pid
        · exact heq.trans heq'.symm
        · rw [heq, hself] at hm'
          cases hm'
          rw [hother p' heq'] at hm''
          exact absurd rfl (hold p' k' _ hp'' hm'')
        · rw [heq', hself] at hm''
          cases hm''
          rw [hother p heq] at hm'
          exact absurd rfl (hold p k _ hp' hm')
        · rw [hother p heq] at hm'
          rw [hother p' heq'] at hm''
          exact h.single p p' k k' m hp' hp'' hm' hm''
      claimed := fun c hc hpos => by
        rw [hnode] at hpos
        by_cases hcb : c = b
        · rw [hcb]
          refine Or.inr ⟨(s.node b).pid, (s.node b).blknum, ?_, hself⟩
          rw [hphase]
          exact hp
        · rcases h.claimed c hc hpos with hcur | ⟨p, k, hp', hm'⟩
          · rw [hanswered] at hcur
            exact absurd (Comm.answered.inj hcur).symm hcb
          · have hpne : p ≠ (s.node b).pid := by
              rintro rfl
              rw [hm] at hm'
              cases hm'
            refine Or.inr ⟨p, k, ?_, ?_⟩
            · rw [hphase]
              exact hp'
            · rw [hother p hpne]
              exact hm' }

end Comm

end Served

end Rds
end BbbXinu
