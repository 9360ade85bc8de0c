import BbbXinu.Properties.Calm

/-!
# Ordered insertion

Any pair of neighbouring entries behind those of the processes can be the ends of a queue,
also a pair that {lit}`newqueue` hands out after the start.  {lit}`insert` is described for one
such queue: it changes its list and leaves the other queues of the table alone.
-/

namespace BbbXinu

open LinkedLists KeyedLists

/-- The processes of a queue, linked in both directions between a head and a tail that
{lit}`newqueue` has set up. -/
structure WellFormed (t : Int → Qentry) (q : Int) (l : List Int) : Prop where
  good : ¬ isbadqid q
  ends : NPROC ≤ q
  seg : Seg (fun i => (t i).qnext) (fun i => (t i).qprev) q l (queuetail q)
  head : (t (queuehead q)).qprev = EMPTY ∧ (t (queuehead q)).qkey = MAXKEY
  tail : (t (queuetail q)).qnext = EMPTY ∧ (t (queuetail q)).qkey = MINKEY
  valid : ∀ p ∈ l, ValidPid p
  nodup : l.Nodup

namespace WellFormed

variable {t t' : Int → Qentry} {q r p : Int} {l m : List Int}

theorem not_node (h : WellFormed t q l) (hp : ValidPid p) : p ≠ q ∧ p ≠ queuetail q := by
  have hends := h.ends
  unfold ValidPid at hp
  unfold queuetail
  constructor
  · omega
  · omega

theorem ends_not_node (h : WellFormed t q l) : ¬ ValidPid q ∧ ¬ ValidPid (queuetail q) :=
  ⟨fun hv => (h.not_node hv).1 rfl, fun hv => (h.not_node hv).2 rfl⟩

/-- The entries of a queue. -/
theorem ring_nodup (h : WellFormed t q l) : (q :: (l ++ [queuetail q])).Nodup := by
  have hq : q ∉ l := fun hm => (h.not_node (h.valid q hm)).1 rfl
  have ht : queuetail q ∉ l := fun hm => (h.not_node (h.valid _ hm)).2 rfl
  have hne : q ≠ queuetail q := by
    unfold queuetail
    omega
  have hl := h.nodup
  grind

theorem length_lt (h : WellFormed t q l) : l.length < Xinu.queueFuel := by
  have hle := nodup_length_le h.nodup h.valid
  unfold Xinu.queueFuel
  rw [nproc_val] at hle
  omega

/-- Nothing in the table but the entries of a queue matters to it. -/
theorem congr (h : WellFormed t q l) (ht : ∀ i ∈ q :: (l ++ [queuetail q]), t' i = t i) :
    WellFormed t' q l where
  good := h.good
  ends := h.ends
  seg := by
    apply h.seg.congr
    · intro y hy
      have hy' : y ∈ q :: (l ++ [queuetail q]) := by grind
      simp only [ht y hy']
    · intro y hy
      have hy' : y ∈ q :: (l ++ [queuetail q]) := by grind
      simp only [ht y hy']
  head := by
    have hq : t' (queuehead q) = t (queuehead q) := ht q (by simp)
    rw [hq]
    exact h.head
  tail := by
    have hq : t' (queuetail q) = t (queuetail q) := ht _ (by simp)
    rw [hq]
    exact h.tail
  valid := h.valid
  nodup := h.nodup

/-- The links behind a process lead to the tail of one queue only. -/
theorem disjoint (h : WellFormed t q l) (h' : WellFormed t r m) (hne : r ≠ q) :
    ∀ p ∈ m, p ∉ l := by
  intro p hm hl
  rcases List.append_of_mem hl with ⟨l₁, l₂, rfl⟩
  rcases List.append_of_mem hm with ⟨m₁, m₂, rfl⟩
  have hseg := (seg_append.mp h.seg).2
  have hseg' := (seg_append.mp h'.seg).2
  have htails := (hseg'.unique hseg (fun y hy => h'.valid y (by simp [hy]))
    (fun y hy => h.valid y (by simp [hy])) h'.ends_not_node.2 h.ends_not_node.2).2
  apply hne
  unfold queuetail at htails
  omega

/-- Two queues have no entry in common. -/
theorem apart (h : WellFormed t q l) (h' : WellFormed t r m) (hne : r ≠ q) :
    ∀ i ∈ r :: (m ++ [queuetail r]), i ∉ q :: (l ++ [queuetail q]) := by
  have hdis := h.disjoint h' hne
  have hfirst : 0 ≤ (t q).qnext := by
    have hmem := headOr_mem (queuetail q) l
    rw [← h.seg.next_eq_headOr] at hmem
    rcases List.mem_append.mp hmem with hm | hm
    · exact (h.valid _ hm).1
    · rw [List.mem_singleton.mp hm]
      have hends := h.ends
      unfold NPROC at hends
      unfold queuetail
      omega
  have hlast : 0 ≤ (t (queuetail q)).qprev := by
    have hmem := lastOr_mem q l
    rw [← h.seg.prev_eq_lastOr] at hmem
    rcases List.mem_cons.mp hmem with hm | hm
    · rw [hm]
      have hends := h.ends
      unfold NPROC at hends
      omega
    · exact (h.valid _ hm).1
  -- the head of a queue has no entry before it, and its tail none behind it
  have hrt : r ≠ queuetail q := by
    rintro rfl
    have hprev : (t (queuetail q)).qprev = EMPTY := h'.head.1
    rw [hprev] at hlast
    exact absurd hlast (by decide)
  have htq : queuetail r ≠ q := by
    intro he
    have hnext := h'.tail.1
    rw [he] at hnext
    rw [hnext] at hfirst
    exact absurd hfirst (by decide)
  have htt : queuetail r ≠ queuetail q := by
    intro he
    unfold queuetail at he
    omega
  have hnode : ∀ p ∈ m, p ≠ q ∧ p ≠ queuetail q := fun p hp => h.not_node (h'.valid p hp)
  have hnode' : ∀ p ∈ l, p ≠ r ∧ p ≠ queuetail r := fun p hp => h'.not_node (h.valid p hp)
  grind

/-- What a process and the entries of one queue are changed to does not concern a queue that has
neither. -/
theorem other (h : WellFormed t q l) (h' : WellFormed t r m) (hne : r ≠ q)
    (hp : ValidPid p) (hpm : p ∉ m)
    (ht : ∀ i, i ≠ p → i ∉ q :: (l ++ [queuetail q]) → t' i = t i) : WellFormed t' r m := by
  have happart := h.apart h' hne
  have hnode := h'.not_node hp
  apply h'.congr
  intro i hi
  apply ht i
  · grind
  · exact happart i hi

/-- A process that is linked in between two neighbours of a queue. -/
theorem link (h : WellFormed t q (l ++ m)) (hp : ValidPid p) (hoff : p ∉ l ++ m)
    (hnext : (fun i => (t' i).qnext) =
      upd (upd (fun i => (t i).qnext) p (headOr (queuetail q) m)) (lastOr q l) p)
    (hprev : (fun i => (t' i).qprev) =
      upd (upd (fun i => (t i).qprev) p (lastOr q l)) (headOr (queuetail q) m) p)
    (hkey : ∀ i, ¬ ValidPid i → (t' i).qkey = (t i).qkey) :
    WellFormed t' q (l ++ p :: m) := by
  have hring := h.ring_nodup
  have hapart := h.not_node hp
  have hnot := h.ends_not_node
  have hlast := lastOr_mem q l
  have hfirst := headOr_mem (queuetail q) m
  constructor
  · exact h.good
  · exact h.ends
  · rw [hnext, hprev]
    exact h.seg.insert hring (by grind)
  · constructor
    · have hq : q ≠ headOr (queuetail q) m := by grind
      have hq' := congrFun hprev q
      rw [upd_of_ne hq, upd_of_ne hapart.1.symm] at hq'
      exact hq'.trans h.head.1
    · exact (hkey _ hnot.1).trans h.head.2
  · constructor
    · have hq : queuetail q ≠ lastOr q l := by grind
      have hq' := congrFun hnext (queuetail q)
      rw [upd_of_ne hq, upd_of_ne hapart.2.symm] at hq'
      exact hq'.trans h.tail.1
    · exact (hkey _ hnot.2).trans h.tail.2
  · intro y hy
    have hcases : y = p ∨ y ∈ l ++ m := by grind
    rcases hcases with rfl | hmem
    · exact hp
    · exact h.valid y hmem
  · have hnd := h.nodup
    grind

/-- A process whose neighbours in a queue are linked to each other. -/
theorem unlink (h : WellFormed t q (l ++ p :: m))
    (hnext : ∀ i, i ≠ p →
      (t' i).qnext = upd (fun i => (t i).qnext) (lastOr q l) (headOr (queuetail q) m) i)
    (hprev : ∀ i, i ≠ p →
      (t' i).qprev = upd (fun i => (t i).qprev) (headOr (queuetail q) m) (lastOr q l) i)
    (hkey : ∀ i, ¬ ValidPid i → (t' i).qkey = (t i).qkey) :
    WellFormed t' q (l ++ m) := by
  have hring := h.ring_nodup
  have hapart := h.not_node (h.valid p (by simp))
  have hnot := h.ends_not_node
  have hlast := lastOr_mem q l
  have hfirst := headOr_mem (queuetail q) m
  rcases seg_append.mp h.seg with ⟨hfront, hback⟩
  have hseg := h.seg.remove hring
  simp only [hfront.prev_eq_lastOr, hback.next_eq_headOr] at hseg
  constructor
  · exact h.good
  · exact h.ends
  · apply hseg.congr
    · intro y hy
      exact hnext y (by grind)
    · intro y hy
      exact hprev y (by grind)
  · constructor
    · have hq : q ≠ headOr (queuetail q) m := by grind
      have hq' := hprev q hapart.1.symm
      rw [upd_of_ne hq] at hq'
      exact hq'.trans h.head.1
    · exact (hkey _ hnot.1).trans h.head.2
  · constructor
    · have hq : queuetail q ≠ lastOr q l := by grind
      have hq' := hnext (queuetail q) hapart.2.symm
      rw [upd_of_ne hq] at hq'
      exact hq'.trans h.tail.1
    · exact (hkey _ hnot.2).trans h.tail.2
  · intro y hy
    exact h.valid y (by grind)
  · have hnd := h.nodup
    grind

end WellFormed

/-!
## Insertion
-/

namespace Xinu

variable {s : Xinu} {q r pid key : Int} {l m : List Int}

/-- The first process of a queue is served first. -/
theorem dequeue_first {p : Int} (h : WellFormed s.queuetab q (p :: l)) : (s.dequeue q).1 = p := by
  have hfirst : s.firstid q = p := h.seg.1
  have hvalid := h.valid p (by simp)
  unfold ValidPid at hvalid
  have hne : ¬ s.isempty q := by
    unfold isempty
    omega
  unfold dequeue getfirst
  simp [h.good, hne, hfirst]

/-- What {lit}`insert` makes of a queue: the new process stands behind all whose keys are at
least as large, and before all others. -/
structure Inserts (s s' : Xinu) (pid q key : Int) (l₁ l₂ : List Int) : Prop where
  queue : WellFormed s'.queuetab q (l₁ ++ pid :: l₂)
  descending : Descending (fun p => (s'.queuetab p).qkey) (l₁ ++ pid :: l₂)
  before : ∀ p ∈ l₁, key ≤ (s.queuetab p).qkey
  behind : ∀ p ∈ l₂, (s.queuetab p).qkey < key
  qkey : (s'.queuetab pid).qkey = key
  qkeys : ∀ i, i ≠ pid → (s'.queuetab i).qkey = (s.queuetab i).qkey
  served : (s'.dequeue q).1 = headOr pid l₁
  others : ∀ r m, r ≠ q → WellFormed s.queuetab r m → (∀ p ∈ m, p ∉ l₁ ++ l₂) →
    WellFormed s'.queuetab r m
  state : s' = s.setQueuetab s'.queuetab

/-- The place that the search finds, with the list in front of it and behind it. -/
theorem insertSearch_split (pid : Int) (h : WellFormed s.queuetab q l) (hkey : MINKEY < key) :
    ∃ l₁ l₂, l = l₁ ++ l₂ ∧ s.insertSearch key queueFuel (s.firstid q) = headOr (queuetail q) l₂ ∧
      insertKey (fun p => (s.queuetab p).qkey) pid key l = l₁ ++ pid :: l₂ ∧
      (∀ p ∈ l₁, key ≤ (s.queuetab p).qkey) ∧ ∀ p ∈ l₂.head?, (s.queuetab p).qkey < key := by
  have htail : (s.queuetab (queuetail q)).qkey < key := by
    rw [h.tail.2]
    exact hkey
  refine ⟨l.takeWhile fun p => decide (key ≤ (s.queuetab p).qkey),
    l.dropWhile fun p => decide (key ≤ (s.queuetab p).qkey), ?_, ?_, rfl, ?_, ?_⟩
  · exact List.takeWhile_append_dropWhile.symm
  · unfold firstid
    rw [queuehead_eq, h.seg.next_eq_headOr]
    exact insertSearch_eq h.seg htail h.length_lt
  · intro p hp
    have hall := List.all_eq_true.mp List.all_takeWhile p hp
    simpa using hall
  · intro p hp
    have hnot := List.head?_dropWhile_not (fun p => decide (key ≤ (s.queuetab p).qkey)) l
    rw [Option.mem_def.mp hp] at hnot
    simpa using hnot

/-- The links that {lit}`insert` writes. -/
theorem insert_table (h : WellFormed s.queuetab q (l ++ m)) (hpid : ¬ s.isbadpid pid)
    (hfound : s.insertSearch key queueFuel (s.firstid q) = headOr (queuetail q) m) :
    s.insert pid q key = s.setQueuetab (s.insert pid q key).queuetab ∧
      (fun i => ((s.insert pid q key).queuetab i).qnext) =
        upd (upd (fun i => (s.queuetab i).qnext) pid (headOr (queuetail q) m)) (lastOr q l) pid ∧
      (fun i => ((s.insert pid q key).queuetab i).qprev) =
        upd (upd (fun i => (s.queuetab i).qprev) pid (lastOr q l)) (headOr (queuetail q) m) pid ∧
      (fun i => ((s.insert pid q key).queuetab i).qkey) =
        upd (fun i => (s.queuetab i).qkey) pid key ∧
      ∀ i, i ≠ pid → i ≠ lastOr q l → i ≠ headOr (queuetail q) m →
        (s.insert pid q key).queuetab i = s.queuetab i := by
  have hprev : (s.queuetab (headOr (queuetail q) m)).qprev = lastOr q l := h.seg.boundary.2
  rcases link_table s pid (lastOr q l) (headOr (queuetail q) m)
    (fun _ => { qnext := headOr (queuetail q) m, qprev := lastOr q l, qkey := key })
    (fun _ => rfl) (fun _ => rfl) with ⟨t, ht, hlinked⟩
  unfold insert
  rw [if_neg (not_or.mpr ⟨h.good, hpid⟩)]
  simp only [hfound, hprev, ht]
  exact ⟨rfl, hlinked⟩

/-- In a queue in descending order, {lit}`insert` puts a process that is on no queue behind
all processes whose keys are at least as large, so that equal keys are served in the order of
their arrival. -/
theorem insert_ordered (h : WellFormed s.queuetab q l)
    (hdesc : Descending (fun p => (s.queuetab p).qkey) l) (hpid : ¬ s.isbadpid pid)
    (hoff : ∀ r m, WellFormed s.queuetab r m → pid ∉ m) (hkey : MINKEY < key) :
    ∃ l₁ l₂, l = l₁ ++ l₂ ∧ Inserts s (s.insert pid q key) pid q key l₁ l₂ := by
  have hv : ValidPid pid := (not_isbadpid_iff.mp hpid).1
  have hoffq : pid ∉ l := hoff q l h
  rcases insertSearch_split pid h hkey with ⟨l₁, l₂, rfl, hfound, hins, hbefore, hhead⟩
  rcases insert_table h hpid hfound with ⟨hstate, hnext, hprev, hqkey, hrest⟩
  have hlast := lastOr_mem q l₁
  have hfirst := headOr_mem (queuetail q) l₂
  have hkeys : ∀ i, i ≠ pid →
      ((s.insert pid q key).queuetab i).qkey = (s.queuetab i).qkey := by
    intro i hi
    have hi' := congrFun hqkey i
    rwa [upd_of_ne hi] at hi'
  have hself : ((s.insert pid q key).queuetab pid).qkey = key := by
    have hp := congrFun hqkey pid
    rwa [upd_self] at hp
  have hqueue : WellFormed (s.insert pid q key).queuetab q (l₁ ++ pid :: l₂) := by
    apply h.link hv hoffq hnext hprev
    intro i hi
    exact hkeys i fun he => hi (he ▸ hv)
  refine ⟨l₁, l₂, rfl, ?_⟩
  constructor
  · exact hqueue
  · rw [← hins]
    apply hdesc.insertKey hself
    intro y hy
    exact hkeys y fun he => hoffq (he ▸ hy)
  · exact hbefore
  · intro p hp
    cases l₂ with
    | nil => cases hp
    | cons x l₂ =>
        have hx := hhead x rfl
        have hle := Descending.le_head (hdesc.sublist (List.sublist_append_right _ _)) hp
        exact Int.lt_of_le_of_lt hle hx
  · exact hself
  · exact hkeys
  · cases l₁ with
    | nil => exact dequeue_first hqueue
    | cons x l₁ => exact dequeue_first hqueue
  · intro r m hne hr _
    apply h.other hr hne hv (hoff r m hr)
    intro i hi hring
    apply hrest i hi
    · grind
    · grind
  · exact hstate

/-- Nothing comes before a process that is on no queue. -/
theorem not_mem_of_qprev {t : Int → Qentry} (h : WellFormed t r m)
    (hp : (t pid).qprev = EMPTY) : pid ∉ m := by
  intro hm
  rcases List.append_of_mem hm with ⟨l₁, l₂, rfl⟩
  have hprev : (t pid).qprev = lastOr r l₁ := h.seg.boundary.2
  have hmem := lastOr_mem r l₁
  have hends := h.ends
  rw [← hprev, hp] at hmem
  rcases List.mem_cons.mp hmem with he | he
  · rw [← he] at hends
    exact absurd hends (by decide)
  · have hvalid := h.valid EMPTY (by simp [he])
    exact absurd hvalid (by decide)

/-- A table with one queue, of the processes 1 and 2. -/
def sampleTable (i : Int) : Qentry :=
  if i = NPROC then { qkey := MAXKEY, qnext := 1, qprev := EMPTY }
  else if i = 1 then { qkey := 7, qnext := 2, qprev := NPROC }
  else if i = 2 then { qkey := 5, qnext := NPROC + 1, qprev := 1 }
  else if i = NPROC + 1 then { qkey := MINKEY, qnext := EMPTY, qprev := 2 }
  else { qkey := 0, qnext := EMPTY, qprev := EMPTY }

/-- Process 3 is suspended. -/
def sampleSuspended : Xinu :=
  ((image sampleMem fun _ => 0).setQueuetab sampleTable).setProc 3 fun e =>
    { e with prstate := .susp }

theorem sampleTable_wellFormed : WellFormed sampleTable NPROC [1, 2] where
  good := by decide
  ends := by decide
  seg := ⟨rfl, rfl, rfl, rfl, rfl, rfl⟩
  head := ⟨rfl, rfl⟩
  tail := ⟨rfl, rfl⟩
  valid := by decide
  nodup := by decide

theorem insert_ordered_equal : ∃ l₁ l₂, [1, 2] = l₁ ++ l₂ ∧
    Inserts sampleSuspended (sampleSuspended.insert 3 NPROC 7) 3 NPROC 7 l₁ l₂ := by
  apply insert_ordered sampleTable_wellFormed
  · exact List.pairwise_pair.mpr (by decide)
  · decide
  · intro r m hr
    exact not_mem_of_qprev hr rfl
  · decide

end Xinu

end BbbXinu
