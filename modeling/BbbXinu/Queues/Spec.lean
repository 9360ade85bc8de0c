import BbbXinu.Lib.KeyedLists
import BbbXinu.Kernel.Queue

/-!
# The queue table as a family of lists

The queue table holds one list of processes for each pair of sentinels that
{lit}`sysinit` allocates.  Each queue operation is described once, by what it
does to these lists and to the keys.
-/

namespace BbbXinu

open LinkedLists KeyedLists

/-- Indices of the process table. -/
def ValidPid (p : Int) : Prop := 0 ≤ p ∧ p < NPROC

instance (p : Int) : Decidable (ValidPid p) :=
  inferInstanceAs (Decidable (_ ∧ _))

/-- Head sentinels of the allocated queues. -/
def IsQueue (q : Int) : Prop := NPROC ≤ q ∧ q ≤ sleepq ∧ q % 2 = 0

instance (q : Int) : Decidable (IsQueue q) :=
  inferInstanceAs (Decidable (_ ∧ _))

theorem readylist_val : readylist = 320 := rfl
theorem scratchlist_val : scratchlist = 322 := rfl
theorem sleepq_val : sleepq = 324 := rfl
theorem nproc_val : NPROC = 100 := rfl

@[simp] theorem queuehead_eq (q : Int) : queuehead q = q := rfl

theorem isQueue_readylist : IsQueue readylist := by decide
theorem isQueue_scratchlist : IsQueue scratchlist := by decide
theorem isQueue_sleepq : IsQueue sleepq := by decide

theorem IsQueue.good {q : Int} (h : IsQueue q) : ¬ isbadqid q := by
  have hq := h
  simp only [IsQueue, isbadqid, NQENT, NPROC, NSEM, RWB_COUNT, sleepq_val] at *
  omega

theorem queueLayout : Layout queuetail IsQueue ValidPid where
  head_not_node := by
    intro q hq hv
    simp only [IsQueue, ValidPid] at *
    omega
  tail_not_node := by
    intro q hq hv
    simp only [IsQueue, ValidPid, queuetail] at *
    omega
  tail_not_head := by
    intro q r hq hr he
    simp only [IsQueue, queuetail] at *
    omega
  tail_inj := by
    intro q r _ _ he
    simp only [queuetail] at he
    omega

/-- The lists in a queue table. -/
def Queues (t : Int → Qentry) (L : Int → List Int) : Prop :=
  Family (fun i => (t i).qnext) (fun i => (t i).qprev) queuetail IsQueue ValidPid L

/-- Sentinels carry the extreme keys, so that every search stops. -/
def Sentinels (t : Int → Qentry) : Prop :=
  ∀ q, IsQueue q → (t q).qkey = MAXKEY ∧ (t (queuetail q)).qkey = MINKEY

/-- The processes of a queue, read from the table. -/
def qlist (t : Int → Qentry) (q : Int) : List Int :=
  walk (fun i => (t i).qnext) ValidPid NPROC.toNat (t q).qnext

section Lists

variable {t : Int → Qentry} {L : Int → List Int} {q pid : Int}

theorem nodup_length_le {l : List Int} (hnd : l.Nodup) (hv : ∀ p ∈ l, ValidPid p) :
    l.length ≤ NPROC.toNat := by
  have hsub : l ⊆ (List.range NPROC.toNat).map Int.ofNat := by
    intro p hp
    rcases hv p hp with ⟨h1, h2⟩
    refine List.mem_map.mpr ⟨p.toNat, ?_, ?_⟩
    · rw [List.mem_range]
      omega
    · exact Int.toNat_of_nonneg h1
  have hle := (List.subperm_of_subset hnd hsub).length_le
  simpa using hle

theorem Queues.length_le (hQ : Queues t L) (hq : IsQueue q) :
    (L q).length ≤ NPROC.toNat :=
  nodup_length_le (hQ.nodup hq) (fun _ hp => hQ.node hq hp)

theorem Queues.qlist_eq (hQ : Queues t L) (hq : IsQueue q) : qlist t q = L q := by
  have hs := hQ.seg hq
  exact walk_eq_of_seg hs (fun _ hp => hQ.node hq hp)
    (queueLayout.tail_not_node hq) (hQ.length_le hq)

theorem Queues.firstid_cons (hQ : Queues t L) (hq : IsQueue q) {l : List Int}
    (hL : L q = pid :: l) : (t q).qnext = pid := by
  have h := hQ.next_head hq
  rw [hL] at h
  exact h

theorem Queues.firstid_nil (hQ : Queues t L) (hq : IsQueue q) (hL : L q = []) :
    (t q).qnext = queuetail q := by
  have h := hQ.next_head hq
  rw [hL] at h
  exact h

/-- Links of a process that is on no list can be overwritten. -/
theorem Queues.relink (hQ : Queues t L) {e : Qentry}
    (hv : ValidPid pid) (hoff : ∀ q, IsQueue q → pid ∉ L q) :
    Queues (upd t pid e) L := by
  apply hQ.congr
  · intro q y hq hy
    have hne : y ≠ pid := by
      rintro rfl
      rcases List.mem_cons.mp hy with he | he
      · exact queueLayout.head_not_node hq (he ▸ hv)
      · exact hoff q hq he
    simp [upd_of_ne hne]
  · intro q y hq hy
    have hne : y ≠ pid := by
      rintro rfl
      rcases List.mem_append.mp hy with he | he
      · exact hoff q hq he
      · exact queueLayout.tail_not_node hq (by simpa using List.mem_singleton.mp he ▸ hv)
    simp [upd_of_ne hne]

/-- All lists of a queue table, empty where there is no queue. -/
def lists (t : Int → Qentry) (q : Int) : List Int :=
  if IsQueue q then qlist t q else []

theorem Queues.lists_eq (hQ : Queues t L) (hq : IsQueue q) : lists t q = L q := by
  unfold lists
  rw [if_pos hq, hQ.qlist_eq hq]

theorem Queues.canon (hQ : Queues t L) : Queues t (lists t) where
  seg := fun hq => by
    rw [hQ.lists_eq hq]
    exact hQ.seg hq
  node := fun hq hx => hQ.node hq (hQ.lists_eq hq ▸ hx)
  nodup := fun hq => by
    rw [hQ.lists_eq hq]
    exact hQ.nodup hq
  disjoint := fun hq hr hx hy =>
    hQ.disjoint hq hr (hQ.lists_eq hq ▸ hx) (hQ.lists_eq hr ▸ hy)

theorem lists_of_not (hq : ¬ IsQueue q) : lists t q = [] := if_neg hq

theorem isQueue_of_mem (h : pid ∈ lists t q) : IsQueue q := by
  by_cases hq : IsQueue q
  · exact hq
  · rw [lists_of_not hq] at h
    simp at h

/-- The lists after one of them was replaced. -/
theorem Queues.lists_upd {t₀ : Int → Qentry} {l : List Int}
    (hQ : Queues t (upd (lists t₀) q l)) (hq : IsQueue q) :
    lists t = upd (lists t₀) q l := by
  funext r
  by_cases hr : IsQueue r
  · rw [hQ.lists_eq hr]
  · have hne : r ≠ q := fun he => hr (he ▸ hq)
    rw [lists_of_not hr, upd_of_ne hne, lists_of_not hr]

end Lists

namespace Xinu

/-- The state under another queue table. -/
def setQueuetab (s : Xinu) (t : Int → Qentry) : Xinu := { s with queuetab := t }

section Operations

variable {s : Xinu} {L : Int → List Int} {q pid key : Int} {l : List Int}

theorem not_isbadpid_iff :
    ¬ s.isbadpid pid ↔ ValidPid pid ∧ (s.proctab pid).prstate ≠ PrState.free := by
  unfold isbadpid ValidPid
  rw [not_or, not_or, Int.not_lt, Int.not_le, and_assoc]

theorem isempty_iff (hQ : Queues s.queuetab L) (hq : IsQueue q) :
    s.isempty q ↔ L q = [] := by
  unfold isempty firstid
  cases hL : L q with
  | nil =>
      rw [queuehead_eq, hQ.firstid_nil hq hL]
      simp only [IsQueue, queuetail] at *
      simp
      omega
  | cons p l =>
      rw [queuehead_eq, hQ.firstid_cons hq hL]
      have hv : ValidPid p := hQ.node hq (by rw [hL]; simp)
      simp only [ValidPid] at hv
      simp
      omega

theorem nonempty_iff (hQ : Queues s.queuetab L) (hq : IsQueue q) :
    s.nonempty q ↔ L q ≠ [] := by
  have h := isempty_iff hQ hq
  unfold isempty at h
  unfold nonempty
  rw [ne_eq, ← h]
  omega

theorem setQueue_next (i v : Int) :
    (fun j => ((s.setQueue i fun e => { e with qnext := v }).queuetab j).qnext) =
      upd (fun j => (s.queuetab j).qnext) i v :=
  proj_upd Qentry.qnext

theorem setQueue_prev (i v : Int) :
    (fun j => ((s.setQueue i fun e => { e with qprev := v }).queuetab j).qprev) =
      upd (fun j => (s.queuetab j).qprev) i v :=
  proj_upd Qentry.qprev

/-- Updates that a projection of the entries does not see. -/
theorem setQueue_proj {α : Type} (g : Qentry → α) (i : Int) (f : Qentry → Qentry)
    (hg : ∀ e, g (f e) = g e) :
    (fun j => g ((s.setQueue i f).queuetab j)) = fun j => g (s.queuetab j) := by
  funext j
  show g (upd s.queuetab i (f (s.queuetab i)) j) = g (s.queuetab j)
  rw [upd_apply]
  split
  · rename_i hj
    rw [hj, hg]
  · rfl

theorem setQueue_prev_next (i v : Int) :
    (fun j => ((s.setQueue i fun e => { e with qprev := v }).queuetab j).qnext) =
      fun j => (s.queuetab j).qnext :=
  setQueue_proj Qentry.qnext i _ (fun _ => rfl)

theorem setQueue_next_prev (i v : Int) :
    (fun j => ((s.setQueue i fun e => { e with qnext := v }).queuetab j).qprev) =
      fun j => (s.queuetab j).qprev :=
  setQueue_proj Qentry.qprev i _ (fun _ => rfl)

theorem setQueue_next_key (i v : Int) :
    (fun j => ((s.setQueue i fun e => { e with qnext := v }).queuetab j).qkey) =
      fun j => (s.queuetab j).qkey :=
  setQueue_proj Qentry.qkey i _ (fun _ => rfl)

theorem setQueue_prev_key (i v : Int) :
    (fun j => ((s.setQueue i fun e => { e with qprev := v }).queuetab j).qkey) =
      fun j => (s.queuetab j).qkey :=
  setQueue_proj Qentry.qkey i _ (fun _ => rfl)

/-- The writes that put a process between two entries, one projection of the table at a time. -/
theorem link_table (s : Xinu) (pid prev next : Int) (f : Qentry → Qentry)
    (hnext : ∀ e, (f e).qnext = next) (hprev : ∀ e, (f e).qprev = prev) :
    ∃ t, (((s.setQueue pid f).setQueue prev fun e => { e with qnext := pid }).setQueue next
        fun e => { e with qprev := pid }) = s.setQueuetab t ∧
      (fun i => (t i).qnext) = upd (upd (fun i => (s.queuetab i).qnext) pid next) prev pid ∧
      (fun i => (t i).qprev) = upd (upd (fun i => (s.queuetab i).qprev) pid prev) next pid ∧
      (fun i => (t i).qkey) = upd (fun i => (s.queuetab i).qkey) pid (f (s.queuetab pid)).qkey ∧
      ∀ i, i ≠ pid → i ≠ prev → i ≠ next → t i = s.queuetab i := by
  have hfirst : ∀ g : Qentry → Int, (fun i => g ((s.setQueue pid f).queuetab i)) =
      upd (fun i => g (s.queuetab i)) pid (g (f (s.queuetab pid))) := fun g => proj_upd g
  refine ⟨(((s.setQueue pid f).setQueue prev fun e => { e with qnext := pid }).setQueue next
    fun e => { e with qprev := pid }).queuetab, rfl, ?_, ?_, ?_, ?_⟩
  · rw [setQueue_prev_next, setQueue_next, hfirst Qentry.qnext, hnext]
  · rw [setQueue_prev, setQueue_next_prev, hfirst Qentry.qprev, hprev]
  · rw [setQueue_prev_key, setQueue_next_key, hfirst Qentry.qkey]
  · intro i hp hl hm
    simp [setQueue, upd_of_ne hp, upd_of_ne hl, upd_of_ne hm]

/-- The writes that take a process out from between its neighbours. -/
theorem getitem_table (s : Xinu) (pid : Int) :
    ∃ t, s.getitem pid = s.setQueuetab t ∧
      (fun i => (t i).qnext) =
        upd (fun i => (s.queuetab i).qnext) (s.queuetab pid).qprev (s.queuetab pid).qnext ∧
      (fun i => (t i).qprev) =
        upd (fun i => (s.queuetab i).qprev) (s.queuetab pid).qnext (s.queuetab pid).qprev ∧
      (fun i => (t i).qkey) = (fun i => (s.queuetab i).qkey) ∧
      ∀ i, i ≠ (s.queuetab pid).qprev → i ≠ (s.queuetab pid).qnext → t i = s.queuetab i := by
  refine ⟨(s.getitem pid).queuetab, rfl, ?_, ?_, ?_, ?_⟩
  · unfold getitem
    rw [setQueue_prev_next, setQueue_next]
  · unfold getitem
    rw [setQueue_prev, setQueue_next_prev]
  · unfold getitem
    rw [setQueue_prev_key, setQueue_next_key]
  · intro i hprev hnext
    simp [getitem, setQueue, upd_of_ne hprev, upd_of_ne hnext]

theorem getitem_spec (hQ : Queues s.queuetab L) (hq : IsQueue q) (hp : pid ∈ L q) :
    ∃ t, s.getitem pid = s.setQueuetab t ∧
      Queues t (upd L q ((L q).erase pid)) ∧
      ∀ i, (t i).qkey = (s.queuetab i).qkey := by
  rcases List.append_of_mem hp with ⟨l₁, l₂, hsplit⟩
  have hnd := hQ.nodup hq
  have herase : (L q).erase pid = l₁ ++ l₂ := by
    rw [hsplit] at hnd ⊢
    have hp1 : pid ∉ l₁ := by grind
    rw [List.erase_append_right _ hp1, List.erase_cons_head]
  rcases getitem_table s pid with ⟨t, ht, hnext, hprev, hkey, _⟩
  refine ⟨t, ht, ?_, congrFun hkey⟩
  rw [herase]
  unfold Queues
  rw [hnext, hprev]
  exact hQ.remove queueLayout hq hsplit

theorem getfirst_nil (hQ : Queues s.queuetab L) (hq : IsQueue q) (hL : L q = []) :
    s.getfirst q = (EMPTY, s) := by
  unfold getfirst
  rw [if_pos ((isempty_iff hQ hq).mpr hL)]

theorem getfirst_cons (hQ : Queues s.queuetab L) (hq : IsQueue q) (hL : L q = pid :: l) :
    ∃ t, s.getfirst q = (pid, s.setQueuetab t) ∧
      Queues t (upd L q l) ∧ ∀ i, (t i).qkey = (s.queuetab i).qkey := by
  have hne : ¬ s.isempty q := by
    rw [isempty_iff hQ hq, hL]
    simp
  have hfirst : s.firstid q = pid := hQ.firstid_cons hq hL
  have hmem : pid ∈ L q := by
    rw [hL]
    simp
  rcases getitem_spec hQ hq hmem with ⟨t, ht, hQt, hk⟩
  refine ⟨t, ?_, ?_, hk⟩
  · unfold getfirst
    rw [if_neg hne]
    simp only [hfirst, ht]
  · simpa [hL] using hQt

theorem dequeue_nil (hQ : Queues s.queuetab L) (hq : IsQueue q) (hL : L q = []) :
    s.dequeue q = (EMPTY, s) := by
  unfold dequeue
  rw [if_neg hq.good, if_pos ((isempty_iff hQ hq).mpr hL)]

theorem off_of_removed (hQ : Queues s.queuetab L) (hq : IsQueue q) (hL : L q = pid :: l)
    {r : Int} (hr : IsQueue r) : pid ∉ upd L q l r := by
  have hnd := hQ.nodup hq
  rw [hL] at hnd
  by_cases hrq : r = q
  · rw [hrq, upd_self]
    exact (List.nodup_cons.mp hnd).1
  · rw [upd_of_ne hrq]
    intro hm
    exact hrq (hQ.disjoint hr hq hm (by rw [hL]; simp))

theorem dequeue_cons (hQ : Queues s.queuetab L) (hq : IsQueue q) (hL : L q = pid :: l) :
    ∃ t, s.dequeue q = (pid, s.setQueuetab t) ∧
      Queues t (upd L q l) ∧ ∀ i, (t i).qkey = (s.queuetab i).qkey := by
  have hne : ¬ s.isempty q := by
    rw [isempty_iff hQ hq, hL]
    simp
  have hv : ValidPid pid := hQ.node hq (by rw [hL]; simp)
  rcases getfirst_cons hQ hq hL with ⟨t, ht, hQt, hk⟩
  refine ⟨upd t pid { t pid with qprev := EMPTY, qnext := EMPTY }, ?_, ?_, ?_⟩
  · unfold dequeue
    rw [if_neg hq.good, if_neg hne, ht]
    rfl
  · exact hQt.relink hv (fun r hr => off_of_removed hQ hq hL hr)
  · intro i
    rw [upd_apply]
    split
    · rename_i he
      rw [he]
      exact hk pid
    · exact hk i

/-- The three link updates that put a free process between two neighbours. -/
theorem link_spec (hQ : Queues s.queuetab L) (hq : IsQueue q) (hv : ValidPid pid)
    (hoff : ∀ r, IsQueue r → pid ∉ L r) {l₁ l₂ : List Int} (hsplit : L q = l₁ ++ l₂)
    (f : Qentry → Qentry)
    (hnext : ∀ e, (f e).qnext = headOr (queuetail q) l₂)
    (hprev : ∀ e, (f e).qprev = lastOr q l₁) :
    ∃ t, (((s.setQueue pid f).setQueue (lastOr q l₁) fun e =>
          { e with qnext := pid }).setQueue (headOr (queuetail q) l₂) fun e =>
          { e with qprev := pid }) = s.setQueuetab t ∧
      Queues t (upd L q (l₁ ++ pid :: l₂)) ∧
      (t pid).qkey = (f (s.queuetab pid)).qkey ∧
      ∀ i, i ≠ pid → (t i).qkey = (s.queuetab i).qkey := by
  have hins := hQ.insert queueLayout hq hv hoff hsplit
  rcases link_table s pid (lastOr q l₁) (headOr (queuetail q) l₂) f hnext hprev with
    ⟨t, ht, htn, htp, htk, _⟩
  refine ⟨t, ht, ?_, ?_, ?_⟩
  · unfold Queues
    rw [htn, htp]
    exact hins
  · have hpid := congrFun htk pid
    rwa [upd_self] at hpid
  · intro i hi
    have hi' := congrFun htk i
    rwa [upd_of_ne hi] at hi'

theorem enqueue_spec (hQ : Queues s.queuetab L) (hq : IsQueue q) (hbad : ¬ s.isbadpid pid)
    (hoff : ∀ r, IsQueue r → pid ∉ L r) :
    ∃ t, s.enqueue pid q = s.setQueuetab t ∧
      Queues t (upd L q (L q ++ [pid])) ∧
      ∀ i, (t i).qkey = (s.queuetab i).qkey := by
  have hv : ValidPid pid := (not_isbadpid_iff.mp hbad).1
  have hprev : (s.queuetab (queuetail q)).qprev = lastOr q (L q) := hQ.prev_tail hq
  rcases link_spec hQ hq hv hoff (List.append_nil (L q)).symm
    (fun e => { e with qnext := queuetail q, qprev := lastOr q (L q) })
    (fun _ => rfl) (fun _ => rfl) with ⟨t, ht, hQt, hkp, hk⟩
  refine ⟨t, ?_, hQt, ?_⟩
  · unfold enqueue
    rw [if_neg (not_or.mpr ⟨hq.good, hbad⟩)]
    simp only [hprev]
    exact ht
  · intro i
    by_cases hi : i = pid
    · rw [hi]
      exact hkp
    · exact hk i hi

theorem insertSearch_eq {a b : Int} {fuel : Nat}
    (hs : Seg (fun i => (s.queuetab i).qnext) (fun i => (s.queuetab i).qprev) a l b)
    (hb : (s.queuetab b).qkey < key) (hf : l.length < fuel) :
    s.insertSearch key fuel (headOr b l) =
      headOr b (l.dropWhile (fun p => decide (key ≤ (s.queuetab p).qkey))) := by
  induction l generalizing a fuel with
  | nil =>
      cases fuel with
      | zero => simp at hf
      | succ n =>
          unfold insertSearch
          rw [headOr_nil, if_neg (Int.not_le.mpr hb)]
          rfl
  | cons x l ih =>
      cases fuel with
      | zero => simp at hf
      | succ n =>
          rcases hs with ⟨_, _, h3⟩
          unfold insertSearch
          rw [headOr_cons]
          by_cases hx : key ≤ (s.queuetab x).qkey
          · have hnx := h3.next_eq_headOr
            rw [if_pos hx, hnx, ih h3 (by simpa using hf),
              List.dropWhile_cons_of_pos (by simpa using hx)]
          · rw [if_neg hx, List.dropWhile_cons_of_neg (by simpa using hx), headOr_cons]

theorem insert_spec (hQ : Queues s.queuetab L) (hS : Sentinels s.queuetab)
    (hq : IsQueue q) (hbad : ¬ s.isbadpid pid) (hoff : ∀ r, IsQueue r → pid ∉ L r)
    (hkey : MINKEY < key) :
    ∃ t, s.insert pid q key = s.setQueuetab t ∧
      Queues t (upd L q (insertKey (fun p => (s.queuetab p).qkey) pid key (L q))) ∧
      (t pid).qkey = key ∧ ∀ i, i ≠ pid → (t i).qkey = (s.queuetab i).qkey := by
  have hv : ValidPid pid := (not_isbadpid_iff.mp hbad).1
  have hseg := hQ.seg hq
  have hlen := Queues.length_le hQ hq
  have hfuel : (L q).length < queueFuel := by
    simp only [queueFuel, nproc_val] at *
    omega
  have hsearch : s.insertSearch key queueFuel (s.firstid q) = headOr (queuetail q)
      ((L q).dropWhile (fun p => decide (key ≤ (s.queuetab p).qkey))) := by
    unfold firstid
    rw [queuehead_eq, hseg.next_eq_headOr]
    exact insertSearch_eq hseg (by rw [(hS q hq).2]; exact hkey) hfuel
  have hsplit := (List.takeWhile_append_dropWhile
    (p := fun p => decide (key ≤ (s.queuetab p).qkey)) (l := L q)).symm
  have hprev := (hsplit ▸ hseg : Seg _ _ q (_ ++ _) (queuetail q)).boundary.2
  rcases link_spec hQ hq hv hoff hsplit
    (fun _ => { qnext := headOr (queuetail q) _, qprev := lastOr q _, qkey := key })
    (fun _ => rfl) (fun _ => rfl) with ⟨t, ht, hQt, hkp, hk⟩
  refine ⟨t, ?_, hQt, hkp, hk⟩
  unfold insert
  rw [if_neg (not_or.mpr ⟨hq.good, hbad⟩)]
  simp only [hsearch, hprev]
  exact ht

/-- What {lit}`insertd` does to a list of keys: the part it passes, the part it
stops at, and the key left over. -/
def deltaSplit (k : Int → Int) : Int → List Int → List Int × List Int × Int
  | key, [] => ([], [], key)
  | key, p :: l =>
      if k p ≤ key then
        let r := deltaSplit k (int32 (key - k p)) l
        (p :: r.1, r.2)
      else ([], p :: l, key)

theorem deltaSplit_append (k : Int → Int) (key : Int) (l : List Int) :
    (deltaSplit k key l).1 ++ (deltaSplit k key l).2.1 = l := by
  induction l generalizing key with
  | nil => rfl
  | cons p l ih =>
      unfold deltaSplit
      split
      · simp [ih]
      · rfl

/-- On a delta list the search stops in front of the first later due value. -/
theorem deltaSplit_eq {k due : Int → Int} {start d : Int} (h : Delta k due start l)
    (h0 : 0 ≤ start) (hs : start ≤ d) (hd : d < 2147483648) :
    ∃ l₁ l₂, deltaSplit k (d - start) l = (l₁, l₂, d - endDue due start l₁) ∧
      l = l₁ ++ l₂ ∧ endDue due start l₁ ≤ d ∧ ∀ y ∈ l₂, d < due y := by
  induction l generalizing start with
  | nil => exact ⟨[], [], rfl, rfl, hs, fun y hy => by simp at hy⟩
  | cons x l ih =>
      rcases h with ⟨h1, h2, h3⟩
      unfold deltaSplit
      split
      · have hx : due x ≤ d := by omega
        rcases ih h3 (by omega) hx with ⟨l₁, l₂, hsplit, happ, hend, hafter⟩
        have hkey : int32 (d - start - k x) = d - due x := by
          rw [h1, int32_eq (by omega) (by omega)]
          omega
        refine ⟨x :: l₁, l₂, ?_, ?_, hend, hafter⟩
        · rw [hkey, hsplit]
          rfl
        · rw [happ]
          rfl
      · refine ⟨[], x :: l, rfl, rfl, hs, ?_⟩
        intro y hy
        rcases List.mem_cons.mp hy with he | he
        · rw [he]
          omega
        · have h4 := h3.start_le he
          omega

/-- The keys that {lit}`insertd` writes are the differences of the due values. -/
theorem delta_insertd {k k' due : Int → Int} {l₁ l₂ : List Int} {d : Int}
    (h : Delta k due 0 l) (hnd : l.Nodup) (hpid : pid ∉ l) (hbound : ∀ y ∈ l, due y < 2147483648)
    (hpos : 0 ≤ d) (hd : d < 2147483648) (hrun : deltaSplit k d l = (l₁, l₂, key))
    (hk : ∀ i, k' i = if i = pid then key
      else if l₂.head? = some i then int32 (k i - key) else k i) :
    Delta k' (upd due pid d) 0 (l₁ ++ pid :: l₂) ∧ (∀ y ∈ l₁, due y ≤ d) ∧
      ∀ y ∈ l₂, d < due y := by
  rcases deltaSplit_eq h (Int.le_refl 0) hpos hd with ⟨m₁, m₂, hsplit, rfl, hend, hafter⟩
  rw [Int.sub_zero, hrun] at hsplit
  cases hsplit
  have hne : ∀ y ∈ l₁ ++ l₂, y ≠ pid := fun y hy he => hpid (he ▸ hy)
  have h₁ := (delta_append.mp h).1
  have hstart := h₁.start_le_end
  refine ⟨?_, ?_, hafter⟩
  · apply h.insert hnd hpid hend
    · exact fun y hy => Int.le_of_lt (hafter y hy)
    · intro y hy
      rw [hk, if_neg (hne y (by simp [hy])), if_neg]
      intro hh
      exact List.disjoint_of_nodup_append hnd hy (List.mem_of_mem_head? hh)
    · rw [hk, if_pos rfl]
    · intro y hy
      rw [hk y, if_neg (hne y (by simp [hy])), hk pid, if_pos rfl]
      split
      · rename_i hh
        have hlt := hafter y hy
        have hb := hbound y (by simp [hy])
        have hkey : k y = due y - endDue due 0 l₁ := by
          cases l₂ with
          | nil => simp at hy
          | cons z l =>
              simp only [List.head?_cons, Option.some.injEq] at hh
              subst hh
              exact (delta_append.mp h).2.1
        rw [hkey, int32_eq (by omega) (by omega)]
      · rfl
    · exact upd_self
    · exact fun y hy => upd_of_ne (hne y hy)
  · exact fun y hy => Int.le_trans (h₁.le_end hy) hend

theorem insertdSearch_eq {a : Int} {fuel : Nat} (key : Int)
    (hs : Seg (fun i => (s.queuetab i).qnext) (fun i => (s.queuetab i).qprev) a l
      (queuetail q))
    (hl : queuetail q ∉ l) (hf : l.length < fuel) :
    s.insertdSearch q fuel a (headOr (queuetail q) l) key =
      (lastOr a (deltaSplit (fun p => (s.queuetab p).qkey) key l).1,
        headOr (queuetail q) (deltaSplit (fun p => (s.queuetab p).qkey) key l).2.1,
        (deltaSplit (fun p => (s.queuetab p).qkey) key l).2.2) := by
  induction l generalizing a fuel key with
  | nil =>
      cases fuel with
      | zero => simp at hf
      | succ n => simp [insertdSearch, deltaSplit]
  | cons x l ih =>
      cases fuel with
      | zero => simp at hf
      | succ n =>
          rcases hs with ⟨_, _, h3⟩
          have hxt : x ≠ queuetail q := fun he => hl (by simp [he])
          have hnx := h3.next_eq_headOr
          unfold insertdSearch deltaSplit
          rw [headOr_cons]
          by_cases hx : (s.queuetab x).qkey ≤ key
          · rw [if_pos ⟨hxt, hx⟩, if_pos hx, hnx,
              ih _ h3 (fun hm => hl (by simp [hm])) (by simpa using hf)]
            rfl
          · rw [if_neg (fun h => hx h.2), if_neg hx]
            rfl

theorem insertd_spec (key : Int) (hQ : Queues s.queuetab L) (hq : IsQueue q)
    (hbad : ¬ s.isbadpid pid) (hoff : ∀ r, IsQueue r → pid ∉ L r) :
    ∃ t l₁ l₂ key', deltaSplit (fun p => (s.queuetab p).qkey) key (L q) = (l₁, l₂, key') ∧
      L q = l₁ ++ l₂ ∧
      s.insertd pid q key = (OK, s.setQueuetab t) ∧
      Queues t (upd L q (l₁ ++ pid :: l₂)) ∧
      ∀ i, (t i).qkey =
        if i = pid then key'
        else if l₂.head? = some i then int32 ((s.queuetab i).qkey - key')
        else (s.queuetab i).qkey := by
  have hv : ValidPid pid := (not_isbadpid_iff.mp hbad).1
  have hseg := hQ.seg hq
  have hfuel : (L q).length < queueFuel := by
    have hlen := Queues.length_le hQ hq
    simp only [queueFuel, nproc_val] at *
    omega
  have htail : queuetail q ∉ L q :=
    fun hm => queueLayout.tail_not_node hq (hQ.node hq hm)
  have hsearch := insertdSearch_eq key hseg htail hfuel
  have hsplit := deltaSplit_append (fun p => (s.queuetab p).qkey) key (L q)
  rcases hd : deltaSplit (fun p => (s.queuetab p).qkey) key (L q) with ⟨l₁, l₂, key'⟩
  rw [hd] at hsearch hsplit
  dsimp only at hsearch hsplit
  rcases link_spec hQ hq hv hoff hsplit.symm
    (fun _ => { qnext := headOr (queuetail q) l₂, qprev := lastOr q l₁, qkey := key' })
    (fun _ => rfl) (fun _ => rfl) with ⟨t, ht, hQt, hkp, hk⟩
  have hkeys : ∀ i, (t i).qkey = if i = pid then key' else (s.queuetab i).qkey := by
    intro i
    split
    · rename_i hi
      rw [hi]
      exact hkp
    · rename_i hi
      exact hk i hi
  have hrun : s.insertd pid q key = (OK,
      if headOr (queuetail q) l₂ ≠ queuetail q then
        (s.setQueuetab t).setQueue (headOr (queuetail q) l₂)
          fun e => { e with qkey := int32 (e.qkey - key') }
      else s.setQueuetab t) := by
    unfold insertd
    rw [if_neg (not_or.mpr ⟨hq.good, hbad⟩)]
    have hfirst : s.firstid q = headOr (queuetail q) (L q) := hseg.next_eq_headOr
    simp only [hfirst, queuehead_eq, hsearch]
    rw [ht]
  cases l₂ with
  | nil =>
      refine ⟨t, l₁, [], key', rfl, hsplit.symm, ?_, hQt, ?_⟩
      · rw [hrun, headOr_nil, if_neg (fun h => h rfl)]
      · intro i
        rw [hkeys i]
        simp
  | cons n l₂ =>
      have hnL : n ∈ L q := by
        rw [← hsplit]
        simp
      have hnt : n ≠ queuetail q := fun he => htail (he ▸ hnL)
      have hnp : n ≠ pid := fun he => hoff q hq (he ▸ hnL)
      refine ⟨upd t n { t n with qkey := int32 ((t n).qkey - key') }, l₁, n :: l₂, key',
        rfl, hsplit.symm, ?_, ?_, ?_⟩
      · rw [hrun, headOr_cons, if_pos hnt]
        rfl
      · apply Family.congr hQt
        · intro _ i _ _
          simp only [upd_apply]
          split <;> simp_all
        · intro _ i _ _
          simp only [upd_apply]
          split <;> simp_all
      · intro i
        rw [upd_apply]
        by_cases hin : i = n
        · rw [if_pos hin, hin, if_neg hnp]
          simp [hkeys, hnp]
        · rw [if_neg hin, hkeys i]
          simp [Ne.symm hin]

/-- The writes of {lit}`copyqueue` once its destination is empty. -/
theorem copyqueue_table (s : Xinu) (src dst : Int) :
    ∃ t, s.copyqueue src dst = (drainQueue dst queueFuel s).setQueuetab t ∧
      (fun i => (t i).qnext) =
        upd (upd (upd (fun i => ((drainQueue dst queueFuel s).queuetab i).qnext) src
          (queuetail src)) dst ((drainQueue dst queueFuel s).firstid src))
          ((drainQueue dst queueFuel s).lastid src) (queuetail dst) ∧
      (fun i => (t i).qprev) =
        upd (upd (upd (fun i => ((drainQueue dst queueFuel s).queuetab i).qprev) (queuetail src)
          src) ((drainQueue dst queueFuel s).firstid src) dst)
          (queuetail dst) ((drainQueue dst queueFuel s).lastid src) ∧
      (fun i => (t i).qkey) = fun i => ((drainQueue dst queueFuel s).queuetab i).qkey := by
  refine ⟨(s.copyqueue src dst).queuetab, rfl, ?_, ?_, ?_⟩
  · unfold copyqueue
    simp only [setQueue_next, setQueue_prev_next, queuehead_eq]
  · unfold copyqueue
    simp only [setQueue_prev, setQueue_next_prev, queuehead_eq]
  · unfold copyqueue
    simp only [setQueue_next_key, setQueue_prev_key]

/-- {lit}`copyqueue` into an empty queue. -/
theorem copyqueue_spec (hQ : Queues s.queuetab L) {src dst : Int} (hs : IsQueue src)
    (hd : IsQueue dst) (hne : src ≠ dst) (hsrc : L src ≠ []) (hdst : L dst = []) :
    ∃ t, s.copyqueue src dst = s.setQueuetab t ∧
      Queues t (upd (upd L dst (L src)) src []) ∧
      ∀ i, (t i).qkey = (s.queuetab i).qkey := by
  have hmove := hQ.move queueLayout hs hd hne hsrc hdst
  have hdrain : drainQueue dst queueFuel s = s := by
    unfold queueFuel drainQueue
    rw [if_pos ((isempty_iff hQ hd).mpr hdst)]
  rcases copyqueue_table s src dst with ⟨t, ht, hnext, hprev, hkey⟩
  rw [hdrain] at ht hnext hprev hkey
  refine ⟨t, ht, ?_, congrFun hkey⟩
  unfold Queues
  rw [hnext, hprev]
  exact hmove

end Operations

end Xinu

end BbbXinu
