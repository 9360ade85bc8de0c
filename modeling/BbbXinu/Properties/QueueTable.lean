import BbbXinu.Properties.OrderedInsertion

/-!
# Allocating and moving queues

{lit}`newqueue` hands out the pairs of entries behind those of the processes one after another.
{lit}`copyqueue` moves the processes of one queue to another by relinking their two ends.
-/

namespace BbbXinu

open LinkedLists

namespace Xinu

/-!
## Allocation
-/

/-- The entries that {lit}`queuetab` has. -/
def InTable (i : Int) : Prop := 0 ≤ i ∧ i < NQENT

/-- One state for each call of {lit}`newqueue`.  Between two calls anything may happen, but only
{lit}`newqueue` itself reaches its running index. -/
structure Calls (σ : Nat → Xinu) : Prop where
  first : (σ 0).nextqid = NPROC
  next : ∀ k, (σ (k + 1)).nextqid = (σ k).newqueue.2.nextqid

/-- The two entries of a queue. -/
def pair (q : Int) : List Int := [queuehead q, queuetail q]

/-- The queue that a call returns is empty, and its entries belong to nothing else. -/
structure NewPair (σ : Nat → Xinu) (k : Nat) : Prop where
  queue : WellFormed (σ k).newqueue.2.queuetab (σ k).newqueue.1 []
  inside : ∀ i ∈ pair (σ k).newqueue.1, InTable i
  processes : ∀ i ∈ pair (σ k).newqueue.1, ¬ ValidPid i
  earlier : ∀ j < k, (σ j).newqueue.1 ≠ SYSERR →
    ∀ i ∈ pair (σ k).newqueue.1, i ∉ pair (σ j).newqueue.1

/-- A call returns such a queue or an error, and writes within the table only. -/
structure Served (σ : Nat → Xinu) (k : Nat) : Prop where
  result : (σ k).newqueue.1 = SYSERR ∨ NewPair σ k
  frame : ∀ i, ¬ InTable i → (σ k).newqueue.2.queuetab i = (σ k).queuetab i
  state : (σ k).newqueue.2 =
    ((σ k).setQueuetab (σ k).newqueue.2.queuetab).setNextqid (σ k).newqueue.2.nextqid

variable {σ : Nat → Xinu} {s : Xinu}

theorem newqueue_full (h : NQENT < s.nextqid) : s.newqueue = (SYSERR, s) := by
  unfold newqueue
  exact if_pos h

/-- A call that finds the running index within its limit writes two entries. -/
theorem newqueue_pair (h : ¬ NQENT < s.nextqid) :
    s.newqueue.1 = s.nextqid ∧ s.newqueue.2.nextqid = s.nextqid + 2 ∧
      s.newqueue.2.queuetab = upd (upd s.queuetab (queuehead s.nextqid)
        { qnext := queuetail s.nextqid, qprev := EMPTY, qkey := MAXKEY }) (queuetail s.nextqid)
        { qnext := EMPTY, qprev := queuehead s.nextqid, qkey := MINKEY } ∧
      s.newqueue.2 = (s.setQueuetab s.newqueue.2.queuetab).setNextqid s.newqueue.2.nextqid := by
  unfold newqueue
  rw [if_neg h]
  exact ⟨rfl, rfl, rfl, rfl⟩

theorem nqent_val : NQENT = 328 := rfl

/-- The running index before a call: 115 calls move it, then it is beyond the limit. -/
theorem Calls.nextqid (h : Calls σ) (k : Nat) :
    (σ k).nextqid = NPROC + 2 * (min k 115 : Nat) := by
  induction k with
  | zero => exact h.first
  | succ k ih =>
      rw [h.next]
      by_cases hk : NQENT < (σ k).nextqid
      · rw [newqueue_full hk, ih]
        rw [ih, nqent_val, nproc_val] at hk
        omega
      · rw [(newqueue_pair hk).2.1, ih]
        rw [ih, nqent_val, nproc_val] at hk
        omega

theorem Calls.full_iff (h : Calls σ) (k : Nat) : NQENT < (σ k).nextqid ↔ 114 < k := by
  rw [h.nextqid, nqent_val, nproc_val]
  omega

/-- What the calls return: the pairs one after another, the last of them behind the table. -/
theorem Calls.newqueue_eq (h : Calls σ) (k : Nat) :
    (σ k).newqueue.1 = if k ≤ 114 then NPROC + 2 * (k : Int) else SYSERR := by
  split
  · rename_i hk
    have hlimit : ¬ NQENT < (σ k).nextqid := by
      rw [h.full_iff]
      omega
    rw [(newqueue_pair hlimit).1, h.nextqid]
    omega
  · rename_i hk
    rw [newqueue_full ((h.full_iff k).mpr (Nat.not_le.mp hk))]

theorem Calls.newPair (h : Calls σ) {k : Nat} (hk : k < 114) : NewPair σ k := by
  have hreturn := h.newqueue_eq k
  have hlimit : ¬ NQENT < (σ k).nextqid := by
    rw [h.full_iff]
    omega
  rcases newqueue_pair hlimit with ⟨hq, _, htab, _⟩
  rw [if_pos (by omega)] at hreturn
  rw [← hq] at htab
  constructor
  · have hne : (σ k).newqueue.1 ≠ queuetail (σ k).newqueue.1 := by
      unfold queuetail
      omega
    constructor
    · rw [hreturn, isbadqid, nqent_val, nproc_val]
      omega
    · rw [hreturn]
      omega
    · simp [Seg, htab, upd_apply, hne]
    · simp [htab, upd_apply, hne]
    · simp [htab]
    · simp
    · simp
  · simp only [hreturn, pair, queuetail, queuehead_eq, InTable, nqent_val, nproc_val]
    intro i hi
    simp only [List.mem_cons, List.not_mem_nil, or_false] at hi
    omega
  · simp only [hreturn, pair, queuetail, queuehead_eq, ValidPid, nproc_val]
    intro i hi
    simp only [List.mem_cons, List.not_mem_nil, or_false] at hi
    omega
  · intro j hj _
    have hreturn' := h.newqueue_eq j
    rw [if_pos (by omega)] at hreturn'
    simp only [hreturn, hreturn', pair, queuetail, queuehead_eq]
    intro i hi hij
    simp only [List.mem_cons, List.not_mem_nil, or_false] at hi hij
    omega

theorem Calls.served (h : Calls σ) {k : Nat} (hk : k ≠ 114) : Served σ k := by
  by_cases hlimit : NQENT < (σ k).nextqid
  · have hfull := newqueue_full hlimit
    constructor
    · exact Or.inl (by rw [hfull])
    · exact fun i _ => by rw [hfull]
    · rw [hfull]
      rfl
  · rcases newqueue_pair hlimit with ⟨hq, _, htab, hstate⟩
    have hlt : k < 114 := by
      rw [h.full_iff] at hlimit
      omega
    have hpair := h.newPair hlt
    constructor
    · exact Or.inr hpair
    · intro i hi
      have hhead : i ≠ queuehead (σ k).nextqid := by
        rintro rfl
        exact hi (hpair.inside _ (by simp [pair, hq]))
      have htail : i ≠ queuetail (σ k).nextqid := by
        rintro rfl
        exact hi (hpair.inside _ (by simp [pair, hq]))
      rw [htab, upd_of_ne htail, upd_of_ne hhead]
    · exact hstate

/-- The call that reaches the end of the table gets a pair behind it. -/
theorem Calls.not_served (h : Calls σ) : ¬ Served σ 114 := by
  intro hserved
  have hreturn := h.newqueue_eq 114
  rcases hserved.result with herr | hpair
  · rw [hreturn] at herr
    exact absurd herr (by decide)
  · have hin := hpair.inside (queuehead (σ 114).newqueue.1) (by simp [pair])
    rw [hreturn] at hin
    exact absurd hin.2 (by decide)

/-- For 114 calls the table is long enough, and all of them are served as they should. -/
theorem newqueue_served_iff (h : Calls σ) (n : Nat) : (∀ k < n, Served σ k) ↔ n ≤ 114 := by
  constructor
  · intro hall
    by_contra hn
    exact h.not_served (hall 114 (by omega))
  · intro hn k hk
    exact h.served (by omega)

/-- Calls of {lit}`newqueue` and nothing else. -/
def sampleCalls : Nat → Xinu
  | 0 => image sampleMem fun _ => 0
  | k + 1 => (sampleCalls k).newqueue.2

theorem sampleCalls_calls : Calls sampleCalls where
  first := rfl
  next := fun _ => rfl

theorem newqueue_served_last : Served sampleCalls 113 :=
  (newqueue_served_iff sampleCalls_calls 114).mpr (by decide) 113 (by decide)

theorem not_newqueue_served : ¬ ∀ σ, Calls σ → ∀ n, ∀ k < n, Served σ k := by
  intro h
  exact sampleCalls_calls.not_served (h sampleCalls sampleCalls_calls 115 114 (by decide))

/-!
## Moving a queue
-/

section Moving

variable {q pid src dest : Int} {l m : List Int} {fuel : Nat}

theorem isempty_iff_nil (h : WellFormed s.queuetab q l) : s.isempty q ↔ l = [] := by
  have hfirst : s.firstid q = headOr (queuetail q) l := h.seg.next_eq_headOr
  have hends := h.ends
  unfold isempty
  rw [hfirst]
  cases l with
  | nil =>
      simp only [headOr_nil, queuetail, iff_true]
      omega
  | cons p l =>
      have hvalid := (h.valid p (by simp)).2
      simp only [headOr_cons, List.cons_ne_nil, iff_false]
      omega

/-- {lit}`dequeue` leaves the process it takes without neighbours. -/
theorem dequeue_table (h : WellFormed s.queuetab q (pid :: m)) :
    ∃ t, s.dequeue q = (pid, s.setQueuetab t) ∧ WellFormed t q m ∧ (t pid).qprev = EMPTY ∧
      (∀ i, (t i).qkey = (s.queuetab i).qkey) ∧
      ∀ i, i ∉ q :: (pid :: m ++ [queuetail q]) → t i = s.queuetab i := by
  have hne : ¬ s.isempty q := by
    rw [isempty_iff_nil h]
    exact List.cons_ne_nil pid m
  have hfirst : s.firstid q = pid := h.seg.1
  have hprev : (s.queuetab pid).qprev = q := h.seg.2.1
  have hnext : (s.queuetab pid).qnext = headOr (queuetail q) m := h.seg.2.2.next_eq_headOr
  have hhead := headOr_mem (queuetail q) m
  rcases getitem_table s pid with ⟨t, ht, htn, htp, htk, hrest⟩
  rw [hprev, hnext] at htn htp hrest
  refine ⟨upd t pid { t pid with qprev := EMPTY, qnext := EMPTY }, ?_, ?_, ?_, ?_, ?_⟩
  · unfold dequeue getfirst
    rw [if_neg h.good, if_neg hne, if_neg hne]
    simp only [hfirst, ht]
    rfl
  · have hnot := h.ends_not_node
    have hunlink : WellFormed (upd t pid { t pid with qprev := EMPTY, qnext := EMPTY }) q
        ([] ++ m) := by
      apply WellFormed.unlink (l := []) h
      · intro i hi
        rw [upd_of_ne hi]
        exact congrFun htn i
      · intro i hi
        rw [upd_of_ne hi]
        exact congrFun htp i
      · intro i hi
        have hip : i ≠ pid := fun he => hi (he ▸ h.valid pid (by simp))
        rw [upd_of_ne hip]
        exact congrFun htk i
    exact hunlink
  · rw [upd_self]
  · intro i
    rw [upd_apply]
    split
    · rename_i he
      rw [he]
      exact congrFun htk pid
    · exact congrFun htk i
  · intro i hi
    have hip : i ≠ pid := by grind
    rw [upd_of_ne hip]
    apply hrest i
    · grind
    · grind

/-- Dequeuing goes on until the queue is empty. -/
theorem drainQueue_table (h : WellFormed s.queuetab q m) (hf : m.length ≤ fuel) :
    ∃ t, drainQueue q fuel s = s.setQueuetab t ∧ WellFormed t q [] ∧
      (∀ p ∈ m, (t p).qprev = EMPTY) ∧ (∀ i, (t i).qkey = (s.queuetab i).qkey) ∧
      ∀ i, i ∉ q :: (m ++ [queuetail q]) → t i = s.queuetab i := by
  induction m generalizing s fuel with
  | nil =>
      refine ⟨s.queuetab, ?_, h, fun p hp => by simp at hp, fun _ => rfl, fun _ _ => rfl⟩
      have hempty := (isempty_iff_nil h).mpr rfl
      cases fuel with
      | zero => rfl
      | succ n =>
          unfold drainQueue
          rw [if_pos hempty]
          rfl
  | cons p m ih =>
      have hne : ¬ s.isempty q := by
        rw [isempty_iff_nil h]
        exact List.cons_ne_nil p m
      rcases dequeue_table h with ⟨t, ht, hqueue, hprev, hkey, hrest⟩
      cases fuel with
      | zero => simp at hf
      | succ n =>
          have hqueue' : WellFormed (s.setQueuetab t).queuetab q m := hqueue
          rcases ih hqueue' (by simpa using hf) with ⟨t', ht', hempty, hprev', hkey', hrest'⟩
          have hring := h.ring_nodup
          refine ⟨t', ?_, hempty, ?_, ?_, ?_⟩
          · unfold drainQueue
            rw [if_neg hne, ht]
            exact ht'
          · intro y hy
            rcases List.mem_cons.mp hy with rfl | hy
            · rw [hrest' y (by grind)]
              exact hprev
            · exact hprev' y hy
          · exact fun i => (hkey' i).trans (hkey i)
          · intro i hi
            have hi' : i ∉ q :: (m ++ [queuetail q]) := by grind
            exact (hrest' i hi').trans (hrest i hi)

/-- The queue {lit}`src` has taken the place of the queue {lit}`dest`, whose processes are on no
queue any more. -/
structure QueueMoved (s s' : Xinu) (src dest : Int) (l m : List Int) : Prop where
  destq : WellFormed s'.queuetab dest l
  qkey : ∀ p ∈ l, (s'.queuetab p).qkey = (s.queuetab p).qkey
  srcq : WellFormed s'.queuetab src []
  freed : ∀ p ∈ m, ∀ r k, WellFormed s'.queuetab r k → p ∉ k

theorem entry_eq {e e' : Qentry} (hkey : e.qkey = e'.qkey) (hnext : e.qnext = e'.qnext)
    (hprev : e.qprev = e'.qprev) : e = e' := by
  cases e
  cases e'
  simp_all

theorem queue_of_links {t t' : Int → Qentry} (h : WellFormed t q []) (h' : WellFormed t src l)
    (hseg : Seg (fun i => (t' i).qnext) (fun i => (t' i).qprev) q l (queuetail q))
    (hhead : (t' q).qprev = (t q).qprev) (htail : (t' (queuetail q)).qnext = (t (queuetail q)).qnext)
    (hkey : ∀ i, (t' i).qkey = (t i).qkey) : WellFormed t' q l where
  good := h.good
  ends := h.ends
  seg := hseg
  head := ⟨hhead.trans h.head.1, (hkey _).trans h.head.2⟩
  tail := ⟨htail.trans h.tail.1, (hkey _).trans h.tail.2⟩
  valid := h'.valid
  nodup := h'.nodup

/-- The move itself, into a queue that is empty. -/
theorem relink_moved {t t' : Int → Qentry} (h : WellFormed t src l) (h' : WellFormed t dest [])
    (hne : src ≠ dest) (hl : l ≠ [])
    (hnext : (fun i => (t' i).qnext) = upd (upd (upd (fun i => (t i).qnext) src (queuetail src))
      dest (t src).qnext) (t (queuetail src)).qprev (queuetail dest))
    (hprev : (fun i => (t' i).qprev) = upd (upd (upd (fun i => (t i).qprev) (queuetail src) src)
      (t src).qnext dest) (queuetail dest) (t (queuetail src)).qprev)
    (hkey : ∀ i, (t' i).qkey = (t i).qkey) :
    WellFormed t' dest l ∧ WellFormed t' src [] ∧
      ∀ i, i ∉ src :: (l ++ [queuetail src]) → i ∉ [dest, queuetail dest] → t' i = t i := by
  have hfirst : (t src).qnext = headOr (queuetail src) l := h.seg.next_eq_headOr
  have hlast : (t (queuetail src)).qprev = lastOr src l := h.seg.prev_eq_lastOr
  rw [hfirst, hlast] at hnext hprev
  have hring := h.ring_nodup
  have happart := h'.apart h hne
  have hpair := h'.ring_nodup
  have hfirst' : headOr (queuetail src) l ∈ l := by
    cases l with
    | nil => exact absurd rfl hl
    | cons x l => simp
  have hlast' : lastOr src l ∈ l := by
    cases l with
    | nil => exact absurd rfl hl
    | cons x l => exact lastOr_mem x l
  generalize hf : headOr (queuetail src) l = first at *
  generalize hg : lastOr src l = last at *
  have hn : ∀ i, (t' i).qnext = upd (upd (upd (fun i => (t i).qnext) src (queuetail src)) dest
    first) last (queuetail dest) i := congrFun hnext
  have hp : ∀ i, (t' i).qprev = upd (upd (upd (fun i => (t i).qprev) (queuetail src) src) first
    dest) (queuetail dest) last i := congrFun hprev
  have hends : ∀ i ∈ l, i ≠ src ∧ i ≠ queuetail src ∧ i ≠ dest ∧ i ≠ queuetail dest := by grind
  have hsrc := hends first hfirst'
  have hdest := hends last hlast'
  have hcross : src ≠ queuetail src ∧ src ≠ queuetail dest ∧ queuetail src ≠ dest ∧
      queuetail src ≠ queuetail dest ∧ dest ≠ queuetail dest := by grind
  refine ⟨?_, ?_, ?_⟩
  · apply queue_of_links h' h
    · apply Seg.move h.seg hl
      · exact fun hm => (hends dest hm).2.2.1 rfl
      · exact fun hm => (hends _ hm).2.2.2 rfl
      · exact h.nodup
      · exact fun hm => (hends src hm).1 rfl
      · exact fun hm => (hends _ hm).2.1 rfl
      · intro y hy hy'
        simp only [List.mem_cons, List.not_mem_nil, or_false, not_or, hg] at hy'
        simp [hn, upd_apply, hy, hy']
      · intro y hy hy'
        simp only [List.mem_cons, List.not_mem_nil, or_false, not_or, hf] at hy'
        simp [hp, upd_apply, hy, hy']
      · simp [hf, hn, upd_apply, hdest.2.2.1.symm]
      · simp [hf, hp, upd_apply, hsrc]
      · simp [hg, hp]
      · simp [hg, hn]
    · simp [hp, upd_apply, hcross, hcross.2.2.1.symm, hsrc.2.2.1.symm]
    · simp [hn, upd_apply, hcross.2.1.symm, hcross.2.2.2.2.symm, hdest.2.2.2.symm]
    · exact hkey
  · constructor
    · exact h.good
    · exact h.ends
    · constructor
      · simp [hn, upd_apply, hne, hdest.1.symm]
      · simp [hp, upd_apply, hcross, hsrc.2.1.symm]
    · constructor
      · have hqprev : (t' src).qprev = (t src).qprev := by
          simp [hp, upd_apply, hcross, hsrc.1.symm]
        exact hqprev.trans h.head.1
      · exact (hkey _).trans h.head.2
    · constructor
      · have hqnext : (t' (queuetail src)).qnext = (t (queuetail src)).qnext := by
          simp [hn, upd_apply, hcross, hcross.1.symm, hdest.2.1.symm]
        exact hqnext.trans h.tail.1
      · exact (hkey _).trans h.tail.2
    · simp
    · simp
  · intro i hi hi'
    have hout : i ≠ src ∧ i ≠ queuetail src ∧ i ≠ dest ∧ i ≠ queuetail dest ∧ i ≠ first ∧
        i ≠ last := by grind
    apply entry_eq (hkey i)
    · simp [hn, upd_apply, hout]
    · simp [hp, upd_apply, hout]

/-- What {lit}`copyqueue` makes of a table: the destination is drained first, which leaves a table
{lit}`t`, and then the ends are relinked. -/
theorem copyqueue_links (h : WellFormed s.queuetab src l) (h' : WellFormed s.queuetab dest m)
    (hne : src ≠ dest) :
    ∃ t, WellFormed t src l ∧ WellFormed t dest [] ∧ (∀ p ∈ m, (t p).qprev = EMPTY) ∧
      (∀ i, i ∉ dest :: (m ++ [queuetail dest]) → t i = s.queuetab i) ∧
      s.copyqueue src dest = s.setQueuetab (s.copyqueue src dest).queuetab ∧
      (fun i => ((s.copyqueue src dest).queuetab i).qnext) =
        upd (upd (upd (fun i => (t i).qnext) src (queuetail src)) dest (t src).qnext)
          (t (queuetail src)).qprev (queuetail dest) ∧
      (fun i => ((s.copyqueue src dest).queuetab i).qprev) =
        upd (upd (upd (fun i => (t i).qprev) (queuetail src) src) (t src).qnext dest)
          (queuetail dest) (t (queuetail src)).qprev ∧
      (∀ i, ((s.copyqueue src dest).queuetab i).qkey = (t i).qkey) ∧
      ∀ i, (t i).qkey = (s.queuetab i).qkey := by
  rcases drainQueue_table h' (Nat.le_of_lt h'.length_lt) with
    ⟨t, ht, hempty, hfreed, hkeys, hrest⟩
  rcases copyqueue_table s src dest with ⟨t', ht', hnext, hprev, hkey⟩
  rw [ht] at ht' hnext hprev hkey
  have hsrc : WellFormed t src l := h.congr fun i hi => hrest i (h'.apart h hne i hi)
  rw [ht']
  exact ⟨t, hsrc, hempty, hfreed, hrest, rfl, hnext, hprev, congrFun hkey, hkeys⟩

/-- A queue with a process is moved, and the other queues stay as they are. -/
theorem copyqueue_moved (h : WellFormed s.queuetab src l) (h' : WellFormed s.queuetab dest m)
    (hne : src ≠ dest) (hl : l ≠ []) :
    QueueMoved s (s.copyqueue src dest) src dest l m ∧
      (∀ r k, r ≠ src → r ≠ dest → WellFormed s.queuetab r k →
        WellFormed (s.copyqueue src dest).queuetab r k) ∧
      s.copyqueue src dest = s.setQueuetab (s.copyqueue src dest).queuetab := by
  rcases copyqueue_links h h' hne with
    ⟨t, hsrc, hempty, hfreed, hrest, hstate, hnext, hprev, hkey, hkeys⟩
  rcases relink_moved hsrc hempty hne hl hnext hprev hkey with ⟨hdest, hsrc', hsame⟩
  refine ⟨?_, ?_, hstate⟩
  · constructor
    · exact hdest
    · intro p _
      rw [hkey, hkeys]
    · exact hsrc'
    · intro p hp r k hk
      apply not_mem_of_qprev hk
      have hvalid := h'.valid p hp
      have hnode := h.not_node hvalid
      have hnode' := h'.not_node hvalid
      have hpl := h.disjoint h' hne.symm p hp
      rw [hsame p (by grind) (by grind)]
      exact hfreed p hp
  · intro r k hrs hrd hk
    have hapart := h.apart hk hrs
    have hapart' := h'.apart hk hrd
    apply hk.congr
    intro i hi
    have hi₁ := hapart i hi
    have hi₂ := hapart' i hi
    exact (hsame i hi₁ (by grind)).trans (hrest i hi₂)

/-- {lit}`copyqueue` moves a queue exactly if it has a process. -/
theorem copyqueue_moves_iff (h : WellFormed s.queuetab src l) (h' : WellFormed s.queuetab dest m)
    (hne : src ≠ dest) : QueueMoved s (s.copyqueue src dest) src dest l m ↔ l ≠ [] := by
  constructor
  · intro hmoved hl
    subst hl
    rcases copyqueue_links h h' hne with ⟨t, hsrc, _, _, _, _, hnext, _, _, _⟩
    -- the first and the last entry of an empty queue are its own ends
    have hfirst : (t src).qnext = queuetail src := hsrc.seg.1
    have hlast : (t (queuetail src)).qprev = src := hsrc.seg.2
    have hcell := congrFun hnext dest
    rw [hfirst, hlast, upd_of_ne (Ne.symm hne), upd_self] at hcell
    have htails : queuetail src = queuetail dest := hcell.symm.trans hmoved.destq.seg.1
    unfold queuetail at htails
    omega
  · intro hl
    exact (copyqueue_moved h h' hne hl).1

/-- Process 1 is on a queue, process 2 is on another, and a third queue is empty. -/
def sampleQueues : Xinu :=
  (image sampleMem fun _ => 0).setQueuetab fun i =>
    if i = 100 then { qkey := MAXKEY, qnext := 1, qprev := EMPTY }
    else if i = 1 then { qkey := 7, qnext := 101, qprev := 100 }
    else if i = 101 then { qkey := MINKEY, qnext := EMPTY, qprev := 1 }
    else if i = 102 then { qkey := MAXKEY, qnext := 2, qprev := EMPTY }
    else if i = 2 then { qkey := 5, qnext := 103, qprev := 102 }
    else if i = 103 then { qkey := MINKEY, qnext := EMPTY, qprev := 2 }
    else if i = 104 then { qkey := MAXKEY, qnext := 105, qprev := EMPTY }
    else if i = 105 then { qkey := MINKEY, qnext := EMPTY, qprev := 104 }
    else { qkey := 0, qnext := EMPTY, qprev := EMPTY }

theorem sampleQueues_first : WellFormed sampleQueues.queuetab 100 [1] where
  good := by decide
  ends := by decide
  seg := ⟨rfl, rfl, rfl, rfl⟩
  head := ⟨rfl, rfl⟩
  tail := ⟨rfl, rfl⟩
  valid := by decide
  nodup := by decide

theorem sampleQueues_second : WellFormed sampleQueues.queuetab 102 [2] where
  good := by decide
  ends := by decide
  seg := ⟨rfl, rfl, rfl, rfl⟩
  head := ⟨rfl, rfl⟩
  tail := ⟨rfl, rfl⟩
  valid := by decide
  nodup := by decide

theorem sampleQueues_empty : WellFormed sampleQueues.queuetab 104 [] where
  good := by decide
  ends := by decide
  seg := ⟨rfl, rfl⟩
  head := ⟨rfl, rfl⟩
  tail := ⟨rfl, rfl⟩
  valid := by decide
  nodup := by decide

theorem copyqueue_moves_sample :
    QueueMoved sampleQueues (sampleQueues.copyqueue 100 102) 100 102 [1] [2] :=
  (copyqueue_moves_iff sampleQueues_first sampleQueues_second (by decide)).mpr (by decide)

/-- The head of the destination is linked to the tail of the empty source. -/
theorem not_copyqueue_moves : ¬ ∀ (s : Xinu) (src dest : Int) (l m : List Int),
    WellFormed s.queuetab src l → WellFormed s.queuetab dest m → src ≠ dest →
      QueueMoved s (s.copyqueue src dest) src dest l m := by
  intro h
  have hmoved := h sampleQueues 104 102 [] [2] sampleQueues_empty sampleQueues_second (by decide)
  have hlink : ((sampleQueues.copyqueue 104 102).queuetab 102).qnext = queuetail 102 :=
    hmoved.destq.seg.1
  exact absurd hlink (by decide)

end Moving

end Xinu

end BbbXinu
