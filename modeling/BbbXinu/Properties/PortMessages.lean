import BbbXinu.Kernel.PortSystem

/-!
# Messages in ports

A message node is on the free list or in the queue of one port.  A port delivers the messages in
the order in which they were sent, each of them once, up to the next reset, which disposes of the
rest.  The sender semaphore of a port has the room that is left, and the receiver semaphore the
messages, but for what was given to processes that were released; a process that was released
before a reset is given nothing.
-/

namespace BbbXinu
namespace PortSystem

/-- A process that is in a call that it began since the port was created or last cleared. -/
def current (phase : Int → PortCall) (p : PortId) (seq : Int) (q : Int) : Bool :=
  match phase q with
  | .sending p' seq' _ => p' = p ∧ seq' = seq
  | .receiving p' seq' => p' = p ∧ seq' = seq
  | _ => false

/-- A call of {lit}`ptsend` for a port. -/
def Sending (p : PortId) (call : PortCall) (seq : Int) : Prop := ∃ msg, call = .sending p seq msg

/-- A call of {lit}`ptrecv` for a port. -/
def Receiving (p : PortId) (call : PortCall) (seq : Int) : Prop := call = .receiving p seq

/-- Who stands at a semaphore of a port. -/
structure Line (kind : PortCall → Int → Prop) (phase : Int → PortCall) (seq : Int)
    (T : Turnstile Int) : Prop where
  calls : ∀ q ∈ T.inside, ∃ n ≤ seq, kind (phase q) n
  nodup : T.inside.Nodup

/-- The nodes of a queue, from its head to its tail. -/
structure Linked (ptnext : Nat → Nat) (e : PortEntry) (queue : List Nat) : Prop where
  chain : Chains.Chain ptnext 0 e.pthead queue
  tail : e.pttail = queue.getLast?.getD 0

/-- A port that is allocated. -/
structure Working (ptnext ptmsg : Nat → Nat) (phase : Int → PortCall) (p : PortId)
    (e : PortEntry) (g : PortLog) (queue : List Nat) : Prop where
  linked : Linked ptnext e queue
  swaiters : ∀ q ∈ e.ptssem.queue.waiters, current phase p e.ptseq q = true
  rwaiters : ∀ q ∈ e.ptrsem.queue.waiters, current phase p e.ptseq q = true
  room : e.ptssem.unitsOf (current phase p e.ptseq) + queue.length ≤ g.capacity
  ready : e.ptrsem.unitsOf (current phase p e.ptseq) = queue.length
  order : g.received ++ queue.map ptmsg = g.sent
  ptmaxcnt : e.ptmaxcnt ≤ g.capacity

/-- A port that is not allocated. -/
structure Resting (phase : Int → PortCall) (p : PortId) (e : PortEntry) (queue : List Nat) :
    Prop where
  empty : queue = []
  sstale : ∀ q ∈ e.ptssem.inside, current phase p e.ptseq q = false
  rstale : ∀ q ∈ e.ptrsem.inside, current phase p e.ptseq q = false

structure PortOk (ptnext ptmsg : Nat → Nat) (phase : Int → PortCall) (p : PortId)
    (e : PortEntry) (g : PortLog) (queue : List Nat) : Prop where
  senders : Line (Sending p) phase e.ptseq e.ptssem
  receivers : Line (Receiving p) phase e.ptseq e.ptrsem
  alloc : e.ptstate = .alloc → Working ptnext ptmsg phase p e g queue
  other : e.ptstate ≠ .alloc → Resting phase p e queue

/-- A port that a process is clearing; its sender semaphore has released everybody. -/
structure Clearing (e : PortEntry) (g : PortLog) (newstate : PtState) : Prop where
  limbo : e.ptstate = .limbo
  swaiters : e.ptssem.queue.waiters = []
  alloc : newstate = .alloc → e.pthead = 0 ∧ e.pttail = 0 ∧
    e.ptssem.queue.count = e.ptmaxcnt ∧ e.ptmaxcnt ≤ g.capacity ∧ g.sent = [] ∧ g.received = []

section

variable {ptnext ptnext' ptmsg ptmsg' : Nat → Nat} {phase phase' : Int → PortCall} {p : PortId}
  {e e' : PortEntry} {g g' : PortLog} {queue queue' : List Nat} {pid q seq seq' d d' : Int}
  {msg node : Nat} {T T' : Turnstile Int} {kind : PortCall → Int → Prop} {call : PortCall}

/-!
## Who stands at a semaphore
-/

theorem current_congr (h : phase' q = phase q) :
    current phase' p seq q = current phase p seq q := by
  unfold current
  rw [h]

/-- A call of this kind counts just when it began at the given sequence number. -/
def Counted (p : PortId) (kind : PortCall → Int → Prop) : Prop :=
  ∀ phase q n seq, kind (phase q) n → current phase p seq q = decide (n = seq)

theorem counted_sending : Counted p (Sending p) := by
  rintro phase q n seq ⟨msg, h⟩
  unfold current
  rw [h]
  simp

theorem counted_receiving : Counted p (Receiving p) := by
  intro phase q n seq h
  unfold current
  rw [show phase q = .receiving p n from h]
  simp

theorem mem_inside_of_waiters (h : q ∈ T.queue.waiters) : q ∈ T.inside :=
  List.mem_append_left _ h

/-- Whoever stands at a semaphore keeps the call when somebody else changes it. -/
theorem call_kept (phase : Int → PortCall) (call : PortCall) {l : List Int} (h : pid ∉ l) :
    ∀ q ∈ l, upd phase pid call q = phase q :=
  fun _ hq => upd_of_ne (ne_of_mem_of_not_mem hq h)

theorem Line.not_mem (h : Line kind phase seq T) (hcall : ∀ n, ¬kind (phase pid) n) :
    pid ∉ T.inside := by
  intro hin
  obtain ⟨n, -, hkind⟩ := h.calls pid hin
  exact hcall n hkind

/-- Nobody comes to a semaphore but with a call that begins now, and its units change. -/
structure Moves (kind : PortCall → Int → Prop) (phase phase' : Int → PortCall) (p : PortId)
    (seq : Int) (T T' : Turnstile Int) (d : Int) : Prop where
  inside : ∀ q ∈ T'.inside, q ∈ T.inside ∧ phase' q = phase q ∨
    kind (phase' q) seq ∧ current phase' p seq q = true
  nodup : T'.inside.Nodup
  waiters : ∀ q ∈ T'.queue.waiters, q ∈ T.queue.waiters ∨ current phase' p seq q = true
  units : T'.unitsOf (current phase' p seq) = T.unitsOf (current phase p seq) + d

theorem Moves.line (h : Moves kind phase phase' p seq T T' d) (hT : Line kind phase seq T) :
    Line kind phase' seq T' := by
  refine ⟨?_, h.nodup⟩
  intro q hq
  rcases h.inside q hq with ⟨hin, hsame⟩ | ⟨hkind, -⟩
  · rw [hsame]
    exact hT.calls q hin
  · exact ⟨seq, Int.le_refl _, hkind⟩

theorem Moves.current_waiters (h : Moves kind phase phase' p seq T T' d)
    (hT : ∀ q ∈ T.queue.waiters, current phase p seq q = true) :
    ∀ q ∈ T'.queue.waiters, current phase' p seq q = true := by
  intro q hq
  rcases h.waiters q hq with hw | hcurrent
  · rcases h.inside q (mem_inside_of_waiters hq) with ⟨-, hsame⟩ | ⟨-, hcurrent⟩
    · rw [current_congr hsame]
      exact hT q hw
    · exact hcurrent
  · exact hcurrent

theorem moves_stay (hsame : ∀ q ∈ T.inside, phase' q = phase q) (hnodup : T.inside.Nodup) :
    Moves kind phase phase' p seq T T 0 where
  inside := fun q hq => Or.inl ⟨hq, hsame q hq⟩
  nodup := hnodup
  waiters := fun _ hq => Or.inl hq
  units := by
    rw [Turnstile.unitsOf_congr fun q hq => current_congr (hsame q hq), Int.add_zero]

theorem moves_signal (hsame : ∀ q ∈ T.inside, phase' q = phase q) (hnodup : T.inside.Nodup) :
    Moves kind phase phase' p seq T (T.signal 1) 1 where
  inside := fun q hq => Or.inl ⟨Turnstile.inside_signal.mem_iff.mp hq,
    hsame q (Turnstile.inside_signal.mem_iff.mp hq)⟩
  nodup := Turnstile.inside_signal.nodup_iff.mpr hnodup
  waiters := fun _ hq => Or.inl (List.mem_of_mem_drop hq)
  units := by
    rw [Turnstile.unitsOf_signal, Turnstile.unitsOf_congr fun q hq => current_congr (hsame q hq)]
    rfl

theorem moves_enter_open (hopen : T.Open) (hsame : ∀ q ∈ T.inside, phase' q = phase q)
    (hnodup : T.inside.Nodup) : Moves kind phase phase' p seq T (T.enter pid) (-1) where
  inside := by
    rw [Turnstile.inside_enter_open hopen]
    exact fun q hq => Or.inl ⟨hq, hsame q hq⟩
  nodup := by
    rw [Turnstile.inside_enter_open hopen]
    exact hnodup
  waiters := by
    change ∀ q ∈ (T.queue.wait pid).waiters, _
    rw [Turnstile.waiters_open hopen]
    exact fun _ hq => Or.inl hq
  units := by
    rw [Turnstile.unitsOf_enter_open hopen,
      Turnstile.unitsOf_congr fun q hq => current_congr (hsame q hq)]
    rfl

theorem moves_enter_closed (hclosed : ¬T.Open) (hpid : pid ∉ T.inside) (hnodup : T.inside.Nodup)
    (hcounted : Counted p kind) (hkind : kind call seq) :
    Moves kind phase (upd phase pid call) p seq T (T.enter pid) 0 := by
  have hcurrent : current (upd phase pid call) p seq pid = true := by
    rw [hcounted _ pid seq seq (by rw [upd_self]; exact hkind)]
    exact decide_eq_true rfl
  have hperm : (T.enter pid).inside.Perm (pid :: T.inside) := Turnstile.inside_enter hclosed
  have hsame := call_kept phase call hpid
  constructor
  · intro q hq
    rcases List.mem_cons.mp (hperm.mem_iff.mp hq) with rfl | hin
    · rw [upd_self]
      exact Or.inr ⟨hkind, hcurrent⟩
    · exact Or.inl ⟨hin, hsame q hin⟩
  · exact hperm.nodup_iff.mpr (List.nodup_cons.mpr ⟨hpid, hnodup⟩)
  · intro q hq
    change q ∈ (T.queue.wait pid).waiters at hq
    rw [Turnstile.waiters_closed hclosed, List.mem_append, List.mem_singleton] at hq
    rcases hq with hq | rfl
    · exact Or.inl hq
    · exact Or.inr hcurrent
  · rw [Turnstile.unitsOf_enter_closed hclosed hcurrent,
      Turnstile.unitsOf_congr fun q hq => current_congr (hsame q hq), Int.add_zero]

/-- A released process goes on, and uses a unit if it is current. -/
theorem moves_resume (hpid : pid ∈ T.granted) (hnodup : T.inside.Nodup)
    (hd : d = if current phase p seq pid = true then -1 else 0) :
    Moves kind phase (upd phase pid call) p seq T (T.resume pid) d ∧
      ∀ q ∈ (T.resume pid).inside, q ∈ T.inside ∧ upd phase pid call q = phase q := by
  have hperm := Turnstile.inside_resume hpid
  obtain ⟨hout, hrest⟩ := List.nodup_cons.mp (hperm.nodup_iff.mp hnodup)
  have hin : ∀ q ∈ (T.resume pid).inside, q ∈ T.inside ∧ upd phase pid call q = phase q :=
    fun q hq => ⟨hperm.mem_iff.mpr (List.mem_cons_of_mem pid hq), call_kept _ _ hout q hq⟩
  refine ⟨⟨fun q hq => Or.inl (hin q hq), hrest, fun _ hq => Or.inl hq, ?_⟩, hin⟩
  rw [Turnstile.unitsOf_congr fun q hq => current_congr (hin q hq).2, hd]
  split
  · rename_i hcurrent
    rw [Turnstile.unitsOf_resume hpid hcurrent]
    rfl
  · rename_i hstale
    rw [Turnstile.unitsOf_resume_other hpid (Bool.eq_false_iff.mpr hstale), Int.add_zero]

/-!
## One port
-/

/-- The lines of a port move, and its queue with them. -/
theorem PortOk.move (h : PortOk ptnext ptmsg phase p e g queue)
    (hs : Moves (Sending p) phase phase' p e.ptseq e.ptssem e'.ptssem d)
    (hr : Moves (Receiving p) phase phase' p e.ptseq e.ptrsem e'.ptrsem d')
    (hsame : e'.ptstate = e.ptstate ∧ e'.ptseq = e.ptseq ∧ e'.ptmaxcnt = e.ptmaxcnt ∧
      g'.capacity = g.capacity)
    (halloc : e.ptstate = .alloc → Linked ptnext' e' queue' ∧
      g'.received ++ queue'.map ptmsg' = g'.sent ∧
      d + queue'.length ≤ queue.length ∧ d' = queue'.length - queue.length)
    (hother : e.ptstate ≠ .alloc → queue' = queue ∧
      (∀ q ∈ e'.ptssem.inside, q ∈ e.ptssem.inside ∧ phase' q = phase q) ∧
      ∀ q ∈ e'.ptrsem.inside, q ∈ e.ptrsem.inside ∧ phase' q = phase q) :
    PortOk ptnext' ptmsg' phase' p e' g' queue' := by
  obtain ⟨hstate, hseq, hmaxcnt, hcapacity⟩ := hsame
  constructor
  · rw [hseq]
    exact hs.line h.senders
  · rw [hseq]
    exact hr.line h.receivers
  · rw [hstate]
    intro hwork
    obtain ⟨hlinked, horder, hroom, hready⟩ := halloc hwork
    have hw := h.alloc hwork
    have hunits := hw.room
    constructor
    · exact hlinked
    · rw [hseq]
      exact hs.current_waiters hw.swaiters
    · rw [hseq]
      exact hr.current_waiters hw.rwaiters
    · rw [hseq, hs.units, hcapacity]
      omega
    · rw [hseq, hr.units, hw.ready]
      omega
    · exact horder
    · rw [hmaxcnt, hcapacity]
      exact hw.ptmaxcnt
  · rw [hstate]
    intro hidle
    obtain ⟨hqueue, hsin, hrin⟩ := hother hidle
    have hrest := h.other hidle
    constructor
    · rw [hqueue]
      exact hrest.empty
    · intro q hq
      rw [hseq, current_congr (hsin q hq).2]
      exact hrest.sstale q (hsin q hq).1
    · intro q hq
      rw [hseq, current_congr (hrin q hq).2]
      exact hrest.rstale q (hrin q hq).1

/-- A port depends on the nodes of its queue, and on the calls of those who stand at its
semaphores. -/
theorem PortOk.congr (h : PortOk ptnext ptmsg phase p e g queue)
    (hnext : ∀ x ∈ queue, ptnext' x = ptnext x) (hmsg : ∀ x ∈ queue, ptmsg' x = ptmsg x)
    (hs : ∀ q ∈ e.ptssem.inside, phase' q = phase q)
    (hr : ∀ q ∈ e.ptrsem.inside, phase' q = phase q) :
    PortOk ptnext' ptmsg' phase' p e g queue := by
  apply h.move (moves_stay hs h.senders.nodup) (moves_stay hr h.receivers.nodup)
    ⟨rfl, rfl, rfl, rfl⟩
  · intro hstate
    have hw := h.alloc hstate
    refine ⟨⟨hw.linked.chain.congr hnext, hw.linked.tail⟩, ?_, by omega, by omega⟩
    rw [List.map_congr_left hmsg]
    exact hw.order
  · exact fun _ => ⟨rfl, fun q hq => ⟨hq, hs q hq⟩, fun q hq => ⟨hq, hr q hq⟩⟩

/-!
## Queues
-/

/-- The tail pointer of a queue is null just when the queue is empty. -/
theorem Linked.tail_eq_zero (h : Linked ptnext e queue) : e.pttail = 0 ↔ queue = [] := by
  rw [h.tail]
  constructor
  · intro hzero
    by_contra hne
    rw [List.getLast?_eq_some_getLast hne, Option.getD_some] at hzero
    have hmem := List.getLast_mem hne
    rw [hzero] at hmem
    exact h.chain.null_not_mem hmem
  · rintro rfl
    rfl

/-- The last node of a queue is the one that the tail pointer points to. -/
theorem Linked.split (h : Linked ptnext e queue) (hne : queue ≠ []) :
    ∃ l, queue = l ++ [e.pttail] := by
  exists queue.dropLast
  rw [h.tail, List.getLast?_eq_some_getLast hne, Option.getD_some]
  exact (List.dropLast_append_getLast hne).symm

/-- A queue has one node just when its two pointers are the same. -/
theorem Linked.head_eq_tail {rest : List Nat} (h : Linked ptnext e (e.pthead :: rest)) :
    e.pthead = e.pttail ↔ rest = [] := by
  constructor
  · intro hsame
    by_contra hne
    have htail : e.pttail = rest.getLast hne := by
      rw [h.tail, List.getLast?_eq_some_getLast (List.cons_ne_nil _ _), Option.getD_some,
        List.getLast_cons hne]
    have hnodup := (List.nodup_cons.mp h.chain.nodup).1
    rw [hsame, htail] at hnodup
    exact hnodup (List.getLast_mem hne)
  · rintro rfl
    rw [h.tail]
    rfl

/-- The walk over a queue meets its messages. -/
theorem walk_eq {t : PortSystem} {n a : Nat} (h : Chains.Chain t.ptnext 0 a queue)
    (hlen : queue.length ≤ n) : t.walk n a = queue.map t.ptmsg := by
  induction n generalizing a queue with
  | zero =>
      rw [List.length_eq_zero_iff.mp (Nat.le_zero.mp hlen)]
      rfl
  | succ n ih =>
      unfold walk
      split
      · rename_i hzero
        rw [h.eq_null_iff.mp hzero]
        rfl
      · rename_i hne
        obtain ⟨rest, rfl, hrest⟩ := h.of_ne_null hne
        rw [List.length_cons] at hlen
        rw [ih hrest (by omega), List.map_cons]

/-- The queue with the node that {lit}`deposit` links. -/
theorem Linked.deposit (h : Linked ptnext e queue) (hnode : node ∉ queue) (hnull : node ≠ 0)
    (hhead : e'.pthead = if e.pttail = 0 then node else e.pthead) (htail : e'.pttail = node) :
    Linked (if e.pttail = 0 then upd ptnext node 0 else upd (upd ptnext node 0) e.pttail node) e'
      (queue ++ [node]) := by
  constructor
  · rw [hhead]
    split
    · rename_i hzero
      rw [h.tail_eq_zero.mp hzero]
      refine ⟨rfl, hnull, ?_⟩
      rw [upd_self]
      exact Chains.chain_nil
    · rename_i hne
      obtain ⟨l, hl⟩ := h.split fun hnil => hne (h.tail_eq_zero.mpr hnil)
      have hchain := h.chain
      rw [hl] at hchain hnode ⊢
      rw [List.append_assoc]
      exact hchain.concat hnode hnull
  · rw [htail, List.getLast?_concat, Option.getD_some]

/-- The queue without the node that {lit}`take` unlinks. -/
theorem Linked.take {a : Nat} (h : Linked ptnext e (e.pthead :: queue))
    (hhead : e'.pthead = if e.pthead = e.pttail then 0 else ptnext e.pthead)
    (htail : e'.pttail = if e.pthead = e.pttail then 0 else e.pttail) :
    Linked (upd ptnext e.pthead a) e' queue := by
  have hnodup := (List.nodup_cons.mp h.chain.nodup).1
  have hsame := h.head_eq_tail
  constructor
  · rw [hhead]
    split
    · rename_i heq
      rw [hsame.mp heq]
      exact Chains.chain_nil
    · exact h.chain.2.2.other hnodup
  · rw [htail]
    split
    · rename_i heq
      rw [hsame.mp heq]
      rfl
    · rename_i hne
      rw [h.tail]
      cases queue with
      | nil => exact absurd (hsame.mpr rfl) hne
      | cons x rest => rw [List.getLast?_cons_cons]

/-!
## Clearing
-/

theorem Line.keep (h : Line kind phase seq T) (hle : seq ≤ seq')
    (hsame : ∀ q ∈ T.inside, phase' q = phase q) : Line kind phase' seq' T := by
  refine ⟨?_, h.nodup⟩
  intro q hq
  obtain ⟨n, hn, hkind⟩ := h.calls q hq
  rw [hsame q hq]
  exact ⟨n, Int.le_trans hn hle, hkind⟩

/-- Everybody may be released. -/
theorem Line.reset {n : Nat} (h : Line kind phase seq T) : Line kind phase seq (T.reset n) where
  calls := fun q hq => h.calls q (Turnstile.inside_reset.mem_iff.mp hq)
  nodup := Turnstile.inside_reset.nodup_iff.mpr h.nodup

theorem Line.before (h : Line kind phase seq T) (hlt : seq < seq')
    (hsame : ∀ q ∈ T.inside, phase' q = phase q) :
    ∀ q ∈ T.inside, ∃ n < seq', kind (phase' q) n := by
  intro q hq
  obtain ⟨n, hn, hkind⟩ := h.calls q hq
  rw [hsame q hq]
  exact ⟨n, Int.lt_of_le_of_lt hn hlt, hkind⟩

/-- When the sequence number has grown, nobody counts. -/
theorem Line.stale (h : Line kind phase seq T) (hcounted : Counted p kind) (hlt : seq < seq')
    (hsame : ∀ q ∈ T.inside, phase' q = phase q) :
    ∀ q ∈ T.inside, current phase' p seq' q = false := by
  intro q hq
  obtain ⟨n, hn, hkind⟩ := h.before hlt hsame q hq
  rw [hcounted phase' q n seq' hkind]
  exact decide_eq_false (Int.ne_of_lt hn)

/-- The first part of clearing a port. -/
theorem PortOk.clear {n head tail : Nat} (h : PortOk ptnext ptmsg phase p e g queue)
    (hlt : e.ptseq < seq') (hs : ∀ q ∈ e.ptssem.inside, phase' q = phase q)
    (hr : ∀ q ∈ e.ptrsem.inside, phase' q = phase q) :
    PortOk ptnext' ptmsg' phase' p
      { e with
        ptstate := .limbo, ptseq := seq', ptssem := e.ptssem.reset n
        pthead := head, pttail := tail } g' [] where
  senders := (h.senders.keep (Int.le_of_lt hlt) hs).reset
  receivers := h.receivers.keep (Int.le_of_lt hlt) hr
  alloc := PtState.noConfusion
  other := fun _ =>
    { empty := rfl
      sstale := fun q hq =>
        h.senders.stale counted_sending hlt hs q (Turnstile.inside_reset.mem_iff.mp hq)
      rstale := h.receivers.stale counted_receiving hlt hr }

/-- The second part: the receivers are released. -/
theorem PortOk.clearRecv (h : PortOk ptnext ptmsg phase p e g queue) (hstate : e.ptstate = .limbo) :
    PortOk ptnext ptmsg phase p { e with ptrsem := e.ptrsem.reset 0 } g queue := by
  have hne : e.ptstate ≠ .alloc := by
    rw [hstate]
    decide
  have hrest := h.other hne
  exact
    { senders := h.senders
      receivers := h.receivers.reset
      alloc := fun halloc => absurd halloc hne
      other := fun _ =>
        { empty := hrest.empty
          sstale := hrest.sstale
          rstale := fun q hq => hrest.rstale q (Turnstile.inside_reset.mem_iff.mp hq) } }

/-- The end: the port gets its new state. -/
theorem PortOk.leave {newstate : PtState} (h : PortOk ptnext ptmsg phase p e g queue)
    (hclearing : Clearing e g newstate) (hrwaiters : e.ptrsem.queue.waiters = [])
    (hcount : newstate = .alloc → e.ptrsem.queue.count = 0) :
    PortOk ptnext ptmsg phase p { e with ptstate := newstate } g queue := by
  have hrest := h.other (by rw [hclearing.limbo]; decide)
  refine ⟨h.senders, h.receivers, ?_, fun _ => ⟨hrest.empty, hrest.sstale, hrest.rstale⟩⟩
  intro halloc
  obtain ⟨hhead, htail, hscount, hmaxcnt, hsent, hreceived⟩ := hclearing.alloc halloc
  rw [hrest.empty]
  constructor
  · exact ⟨hhead, htail⟩
  · intro q hq
    rw [hclearing.swaiters] at hq
    cases hq
  · intro q hq
    rw [hrwaiters] at hq
    cases hq
  · dsimp only
    rw [Turnstile.unitsOf_stale hrest.sstale, hscount]
    change (e.ptmaxcnt : Int) + (0 : Nat) ≤ _
    omega
  · dsimp only
    rw [Turnstile.unitsOf_stale hrest.rstale, hcount halloc]
    rfl
  · rw [hsent, hreceived]
    rfl
  · exact hmaxcnt

/-- A port that is free is created. -/
theorem PortOk.create {count : Nat} (h : PortOk ptnext ptmsg phase p e g queue)
    (hlt : e.ptseq < seq')
    (he' : e' =
      { ptssem := e.ptssem.reset count, ptrsem := e.ptrsem.reset 0, ptstate := .alloc
        ptmaxcnt := uint16 count, ptseq := seq', pthead := 0, pttail := 0 })
    (hg' : g'.capacity = count ∧ g'.sent = [] ∧ g'.received = []) :
    PortOk ptnext ptmsg phase p e' g' [] := by
  subst he'
  obtain ⟨hcapacity, hsent, hreceived⟩ := hg'
  refine ⟨(h.senders.keep (Int.le_of_lt hlt) fun _ _ => rfl).reset,
    (h.receivers.keep (Int.le_of_lt hlt) fun _ _ => rfl).reset, ?_, fun hne => absurd rfl hne⟩
  intro _
  constructor
  · exact ⟨rfl, rfl⟩
  · exact fun _ hq => nomatch hq
  · exact fun _ hq => nomatch hq
  · dsimp only
    rw [Turnstile.unitsOf_reset (h.senders.stale counted_sending hlt fun _ _ => rfl), hcapacity]
    change (count : Int) + (0 : Nat) ≤ _
    omega
  · dsimp only
    rw [Turnstile.unitsOf_reset (h.receivers.stale counted_receiving hlt fun _ _ => rfl)]
    rfl
  · rw [hsent, hreceived]
    rfl
  · rw [hcapacity]
    dsimp only [uint16]
    omega

end

/-!
## All ports
-/

/-- A process is clearing a port. -/
def Clears (phase : Int → PortCall) (q : Int) (p : PortId) : Prop :=
  ∃ newstate, phase q = .clearing p newstate ∨ phase q = .cleared p newstate

/-- At most one process clears a port, and it has done its part. -/
structure Cleared (phase : Int → PortCall) (p : PortId) (e : PortEntry) (g : PortLog) : Prop where
  clearing : ∀ q newstate, phase q = .clearing p newstate ∨ phase q = .cleared p newstate →
    Clearing e g newstate
  cleared : ∀ q newstate, phase q = .cleared p newstate → e.ptrsem.queue.waiters = [] ∧
    (newstate = .alloc → e.ptrsem.queue.count = 0)
  one : ∀ q q', Clears phase q p → Clears phase q' p → q = q'

/-- The capacities of all ports together. -/
def capacity (t : PortSystem) : Nat := ((List.finRange 30).map fun p => (t.log p).capacity).sum

/-- The ports, with the nodes that are free and those of each queue. -/
structure Sound (t : PortSystem) (free : List Nat) (queue : PortId → List Nat) : Prop where
  panicked : t.panicked = false
  chain : Chains.Chain t.ptnext 0 t.ptfree free
  nodup : t.nodes.Nodup
  parted : Parted t.nodes free queue
  port : ∀ p, PortOk t.ptnext t.ptmsg t.phase p (t.porttab p) (t.log p) (queue p)
  cleared : ∀ p, Cleared t.phase p (t.porttab p) (t.log p)
  capacity : t.capacity ≤ t.nodes.length

/-- The ports are sound, with some free nodes and some queues. -/
def Good (t : PortSystem) : Prop := ∃ free queue, Sound t free queue

/-- A message is sent. -/
def Sends (t : PortSystem) (p : PortId) (msg : Nat) (t' : PortSystem) : Prop :=
  t'.log = upd t.log p { t.log p with sent := (t.log p).sent ++ [msg] }

/-- The first message that was sent and not received is received. -/
def Receives (t : PortSystem) (p : PortId) (t' : PortSystem) : Prop :=
  ∃ msg rest, (t.log p).sent = (t.log p).received ++ msg :: rest ∧
    t'.log = upd t.log p { t.log p with received := (t.log p).received ++ [msg] }

/-- No sequence number becomes smaller. -/
def Grows (t t' : PortSystem) : Prop := ∀ p, (t.porttab p).ptseq ≤ (t'.porttab p).ptseq

/-- One port changes, with the free list and the calls. -/
def put (t : PortSystem) (p : PortId) (e : PortEntry) (g : PortLog) (ptnext ptmsg : Nat → Nat)
    (ptfree : Nat) (phase : Int → PortCall) : PortSystem :=
  { t with
    ptnext := ptnext, ptmsg := ptmsg, ptfree := ptfree
    porttab := upd t.porttab p e, phase := phase, log := upd t.log p g }

section

variable {t t' : PortSystem} {free free' : List Nat} {queue : PortId → List Nat}
  {queue' : List Nat} {p p' : PortId} {e e' : PortEntry} {g g' : PortLog} {pid q : Int}
  {ptnext ptmsg : Nat → Nat} {ptfree : Nat} {phase phase' : Int → PortCall} {call : PortCall}
  {newstate : PtState}

@[simp] theorem put_log : (t.put p e g ptnext ptmsg ptfree phase).log = upd t.log p g := rfl

@[simp] theorem put_phase : (t.put p e g ptnext ptmsg ptfree phase).phase = phase := rfl

@[simp] theorem put_porttab :
    (t.put p e g ptnext ptmsg ptfree phase).porttab = upd t.porttab p e := rfl

/-!
## Clearing by one process
-/

/-- What changes a port in another way changes nothing for those who clear it. -/
theorem Cleared.congr (h : Cleared phase p e g)
    (hphase : ∀ q, Clears phase' q p → phase' q = phase q)
    (hclearing : ∀ newstate, Clearing e g newstate → Clearing e' g' newstate)
    (hrsem : e.ptstate = .limbo → e'.ptrsem.queue = e.ptrsem.queue) : Cleared phase' p e' g' := by
  have hclears : ∀ q, Clears phase' q p → Clears phase q p := by
    intro q hq
    have hsame := hphase q hq
    unfold Clears at hq ⊢
    rw [← hsame]
    exact hq
  constructor
  · intro q newstate hq
    rw [hphase q ⟨newstate, hq⟩] at hq
    exact hclearing newstate (h.clearing q newstate hq)
  · intro q newstate hq
    rw [hphase q ⟨newstate, Or.inr hq⟩] at hq
    rw [hrsem (h.clearing q newstate (Or.inr hq)).limbo]
    exact h.cleared q newstate hq
  · exact fun q q' hq hq' => h.one q q' (hclears q hq) (hclears q' hq')

/-- Nobody clears a port that is free or allocated. -/
theorem Cleared.settled (h : Cleared phase p e g) (hstate : e.ptstate ≠ .limbo)
    (hphase : ∀ q, Clears phase' q p → phase' q = phase q) : Cleared phase' p e' g' :=
  h.congr hphase (fun _ hclearing => absurd hclearing.limbo hstate) fun hlimbo => absurd hlimbo hstate

/-- One process goes on with clearing a port. -/
theorem cleared_upd (hother : ∀ q, Clears phase q p → q = pid)
    (hclearing : ∀ newstate, call = .clearing p newstate ∨ call = .cleared p newstate →
      Clearing e' g' newstate)
    (hcleared : ∀ newstate, call = .cleared p newstate → e'.ptrsem.queue.waiters = [] ∧
      (newstate = .alloc → e'.ptrsem.queue.count = 0)) :
    Cleared (upd phase pid call) p e' g' := by
  have hpid : ∀ q, Clears (upd phase pid call) q p → q = pid := by
    rintro q ⟨newstate, hq⟩
    by_contra hne
    rw [upd_of_ne hne] at hq
    exact hne (hother q ⟨newstate, hq⟩)
  constructor
  · intro q newstate hq
    rw [hpid q ⟨newstate, hq⟩, upd_self] at hq
    exact hclearing newstate hq
  · intro q newstate hq
    rw [hpid q ⟨newstate, Or.inr hq⟩, upd_self] at hq
    exact hcleared newstate hq
  · exact fun q q' hq hq' => (hpid q hq).trans (hpid q' hq').symm

/-!
## A change of one port
-/

/-- A call for no other port. -/
def In (call : PortCall) (p : PortId) : Prop :=
  ∀ p', (∃ n, Sending p' call n ∨ Receiving p' call n) ∨
    (∃ newstate, call = .clearing p' newstate ∨ call = .cleared p' newstate) → p' = p

/-- Whoever is in a call for another port stays in it. -/
def OthersStay (phase phase' : Int → PortCall) (p : PortId) : Prop :=
  ∀ q, phase' q = phase q ∨ In (phase q) p ∧ In (phase' q) p

theorem othersStay_upd (hpid : In (phase pid) p) (hcall : In call p) :
    OthersStay phase (upd phase pid call) p := by
  intro q
  rw [upd_apply]
  split
  · rename_i heq
    rw [heq]
    exact Or.inr ⟨hpid, hcall⟩
  · exact Or.inl rfl

/-- One port changes, with the free list. -/
theorem Sound.put (h : Sound t free queue) (hphase : OthersStay t.phase phase p)
    (hnext : ∀ x, x ∉ free → x ∉ queue p → ptnext x = t.ptnext x)
    (hmsg : ∀ x, x ∉ free → x ∉ queue p → ptmsg x = t.ptmsg x)
    (hchain : Chains.Chain ptnext 0 ptfree free')
    (hperm : (free' ++ queue').Perm (free ++ queue p))
    (hport : PortOk ptnext ptmsg phase p e' g' queue') (hcleared : Cleared phase p e' g')
    (hcapacity : t.capacity + g'.capacity ≤ t.nodes.length + (t.log p).capacity) :
    Sound (t.put p e' g' ptnext ptmsg ptfree phase) free' (upd queue p queue') where
  panicked := h.panicked
  chain := hchain
  nodup := h.nodup
  parted := h.parted.exchange hperm
  port := by
    intro p'
    change PortOk ptnext ptmsg phase p' (upd t.porttab p e' p') (upd t.log p g' p') _
    by_cases hne : p' = p
    · subst hne
      rw [upd_self, upd_self, upd_self]
      exact hport
    · rw [upd_of_ne hne, upd_of_ne hne, upd_of_ne hne]
      have happart : ∀ x ∈ queue p', x ∉ free ∧ x ∉ queue p := fun x hx =>
        not_or.mp (h.parted.apart h.nodup hne hx)
      apply (h.port p').congr
      · exact fun x hx => hnext x (happart x hx).1 (happart x hx).2
      · exact fun x hx => hmsg x (happart x hx).1 (happart x hx).2
      · intro q hq
        obtain ⟨n, -, hkind⟩ := (h.port p').senders.calls q hq
        exact (hphase q).resolve_right fun hin => hne (hin.1 p' (Or.inl ⟨n, Or.inl hkind⟩))
      · intro q hq
        obtain ⟨n, -, hkind⟩ := (h.port p').receivers.calls q hq
        exact (hphase q).resolve_right fun hin => hne (hin.1 p' (Or.inl ⟨n, Or.inr hkind⟩))
  cleared := by
    intro p'
    change Cleared phase p' (upd t.porttab p e' p') (upd t.log p g' p')
    by_cases hne : p' = p
    · subst hne
      rw [upd_self, upd_self]
      exact hcleared
    · rw [upd_of_ne hne, upd_of_ne hne]
      apply (h.cleared p').congr _ (fun _ => id) fun _ => rfl
      exact fun q hq => (hphase q).resolve_right fun hin => hne (hin.2 p' (Or.inr hq))
  capacity := by
    have hperm : (List.finRange 30).Perm (p :: (List.finRange 30).erase p) :=
      List.perm_cons_erase (List.mem_finRange p)
    have hsum : ∀ f : PortId → Nat, ((List.finRange 30).map f).sum =
        f p + (((List.finRange 30).erase p).map f).sum :=
      fun f => (hperm.map f).sum_eq
    have hother : ((List.finRange 30).erase p).map (fun p' => (upd t.log p g' p').capacity) =
        ((List.finRange 30).erase p).map fun p' => (t.log p').capacity := by
      apply List.map_congr_left
      intro p' hp'
      rw [upd_of_ne fun heq => (List.nodup_finRange 30).not_mem_erase (heq ▸ hp')]
    unfold PortSystem.capacity at hcapacity ⊢
    rw [hsum] at hcapacity
    change ((List.finRange 30).map fun p' => (upd t.log p g' p').capacity).sum ≤ t.nodes.length
    rw [hsum, hother, upd_self]
    omega

theorem grows_put (hle : (t.porttab p).ptseq ≤ e'.ptseq) :
    t.Grows (t.put p e' g' ptnext ptmsg ptfree phase) := by
  intro p'
  change _ ≤ (upd t.porttab p e' p').ptseq
  rw [upd_apply]
  split
  · rename_i heq
    rw [heq]
    exact hle
  · exact Int.le_refl _

theorem in_outside : In .outside p := by
  rintro p' (⟨n, ⟨msg, hcall⟩ | hcall⟩ | ⟨newstate, hcall | hcall⟩) <;> cases hcall

theorem clears_outside : ∀ q, Clears (upd phase pid .outside) q p →
    upd phase pid .outside q = phase q := by
  rintro q ⟨newstate, hq⟩
  apply upd_of_ne
  rintro rfl
  rw [upd_self] at hq
  exact hq.elim PortCall.noConfusion PortCall.noConfusion

theorem not_limbo (h : e.ptstate = .alloc) : e.ptstate ≠ .limbo := by
  rw [h]
  decide

/-!
## Sending
-/

/-- A queue has no more messages than the port can have. -/
theorem PortOk.length_le (h : PortOk ptnext ptmsg phase p e g queue') :
    queue'.length ≤ g.capacity := by
  by_cases hstate : e.ptstate = .alloc
  · have hw := h.alloc hstate
    have hroom := hw.room
    rw [Turnstile.unitsOf_eq_granted hw.swaiters] at hroom
    omega
  · rw [(h.other hstate).empty]
    exact Nat.zero_le _

/-- Where there is room in a port, there is a node. -/
theorem Sound.room (h : Sound t free queue) (hstate : (t.porttab p).ptstate = .alloc)
    (hpos : 0 < (t.porttab p).ptssem.unitsOf (current t.phase p (t.porttab p).ptseq)) :
    t.ptfree ≠ 0 := by
  have hlen : free.length + ((List.finRange 30).map fun p' => (queue p').length).sum =
      t.nodes.length := h.parted.length
  have hcapacity := h.capacity
  have hroom := ((h.port p).alloc hstate).room
  have hsum : ((List.finRange 30).map fun p' => (queue p').length).sum < t.capacity := by
    apply List.sum_lt_sum
    · exact fun p' _ => (h.port p').length_le
    · exact ⟨p, List.mem_finRange p, by omega⟩
  intro hzero
  rw [h.chain.eq_null_iff.mp hzero, List.length_nil] at hlen
  omega

/-- What {lit}`deposit` leaves after a wait. -/
theorem deposit_eq {T : Turnstile Int} {msg : Nat} (hfree : t.ptfree ≠ 0) :
    ((t.setEntry p fun e => { e with ptssem := T }).setPhase pid .outside).deposit p msg =
      t.put p
        { t.porttab p with
          ptssem := T
          ptrsem := (t.porttab p).ptrsem.signal 1
          pthead := if (t.porttab p).pttail = 0 then t.ptfree else (t.porttab p).pthead
          pttail := t.ptfree }
        { t.log p with sent := (t.log p).sent ++ [msg] }
        (if (t.porttab p).pttail = 0 then upd t.ptnext t.ptfree 0
          else upd (upd t.ptnext t.ptfree 0) (t.porttab p).pttail t.ptfree)
        (upd t.ptmsg t.ptfree msg) (t.ptnext t.ptfree) (upd t.phase pid .outside) := by
  unfold deposit setEntry setLog setPhase PortSystem.put
  rw [if_neg hfree]
  simp only [upd_self]
  split <;> simp

/-- A process that may, puts a message into a port. -/
theorem Sound.deposit {T : Turnstile Int} {msg : Nat} (h : Sound t free queue)
    (hpid : In (t.phase pid) p) (hstate : (t.porttab p).ptstate = .alloc)
    (hT : Moves (Sending p) t.phase (upd t.phase pid .outside) p (t.porttab p).ptseq
      (t.porttab p).ptssem T (-1))
    (hpos : 0 < (t.porttab p).ptssem.unitsOf (current t.phase p (t.porttab p).ptseq))
    (hr : pid ∉ (t.porttab p).ptrsem.inside)
    (ht' : t' = ((t.setEntry p fun e => { e with ptssem := T }).setPhase pid .outside).deposit
      p msg) :
    Good t' ∧ t.Grows t' ∧ t.Sends p msg t' := by
  have hfree : t.ptfree ≠ 0 := h.room hstate hpos
  rw [deposit_eq hfree] at ht'
  subst ht'
  obtain ⟨free', hcons, hchain⟩ := h.chain.of_ne_null hfree
  have hnodup := h.parted.nodup h.nodup p
  rw [hcons, List.cons_append, List.nodup_cons] at hnodup
  obtain ⟨hnode, hrest⟩ := hnodup
  rw [List.mem_append, not_or] at hnode
  have hw := (h.port p).alloc hstate
  have hlinked := hw.linked
  refine ⟨⟨free', upd queue p (queue p ++ [t.ptfree]), ?_⟩, grows_put (Int.le_refl _), rfl⟩
  -- only the links of the node and of the last node of the queue change
  have hnext : ∀ x, x ≠ t.ptfree → x ∉ queue p →
      (if (t.porttab p).pttail = 0 then upd t.ptnext t.ptfree 0
        else upd (upd t.ptnext t.ptfree 0) (t.porttab p).pttail t.ptfree) x = t.ptnext x := by
    intro x hx hq
    split
    · exact upd_of_ne hx
    · rename_i hne
      obtain ⟨l, hl⟩ := hlinked.split fun hnil => hne (hlinked.tail_eq_zero.mpr hnil)
      have htail : x ≠ (t.porttab p).pttail := by
        rintro rfl
        rw [hl] at hq
        exact hq (List.mem_append_right l (List.mem_singleton_self _))
      rw [upd_of_ne htail, upd_of_ne hx]
  have houtside : ∀ x, x ∉ free → x ≠ t.ptfree := by
    rintro x hx rfl
    rw [hcons] at hx
    exact hx List.mem_cons_self
  apply h.put (othersStay_upd hpid in_outside)
  · exact fun x hx hq => hnext x (houtside x hx) hq
  · exact fun x hx _ => upd_of_ne (houtside x hx)
  · apply hchain.congr
    intro x hx
    apply hnext x (ne_of_mem_of_not_mem hx hnode.1)
    exact fun hq => (List.nodup_append.mp hrest).2.2 x hx x hq rfl
  · rw [hcons, ← List.append_assoc]
    exact List.perm_append_singleton _ _
  · refine (h.port p).move hT (moves_signal (call_kept _ _ hr) (h.port p).receivers.nodup)
      ⟨rfl, rfl, rfl, rfl⟩ ?_ ?_
    · intro _
      rw [List.length_append, List.length_singleton]
      refine ⟨hlinked.deposit hnode.2 hfree rfl rfl, ?_, by omega, by omega⟩
      have hkept : ∀ x ∈ queue p, upd t.ptmsg t.ptfree msg x = t.ptmsg x :=
        fun x hx => upd_of_ne (ne_of_mem_of_not_mem hx hnode.2)
      rw [List.map_append, List.map_singleton, upd_self, ← List.append_assoc,
        List.map_congr_left hkept, hw.order]
    · exact fun hne => absurd hstate hne
  · exact (h.cleared p).settled (not_limbo hstate) clears_outside
  · exact Nat.add_le_add_right h.capacity _

/-!
## Receiving
-/

/-- What {lit}`take` leaves after a wait. -/
theorem take_eq {T : Turnstile Int} :
    ((t.setEntry p fun e => { e with ptrsem := T }).setPhase pid .outside).take p =
      t.put p
        { t.porttab p with
          ptssem := (t.porttab p).ptssem.signal 1
          ptrsem := T
          pthead := if (t.porttab p).pthead = (t.porttab p).pttail then 0
            else t.ptnext (t.porttab p).pthead
          pttail := if (t.porttab p).pthead = (t.porttab p).pttail then 0
            else (t.porttab p).pttail }
        { t.log p with received := (t.log p).received ++ [t.ptmsg (t.porttab p).pthead] }
        (upd t.ptnext (t.porttab p).pthead t.ptfree) t.ptmsg (t.porttab p).pthead
        (upd t.phase pid .outside) := by
  unfold take setEntry setLog setPhase PortSystem.put
  simp only [upd_self]
  split <;> simp

/-- A process that may, takes the first message of a port. -/
theorem Sound.take {T : Turnstile Int} (h : Sound t free queue)
    (hpid : In (t.phase pid) p) (hstate : (t.porttab p).ptstate = .alloc)
    (hT : Moves (Receiving p) t.phase (upd t.phase pid .outside) p (t.porttab p).ptseq
      (t.porttab p).ptrsem T (-1))
    (hpos : 0 < (t.porttab p).ptrsem.unitsOf (current t.phase p (t.porttab p).ptseq))
    (hs : pid ∉ (t.porttab p).ptssem.inside)
    (ht' : t' = ((t.setEntry p fun e => { e with ptrsem := T }).setPhase pid .outside).take p) :
    Good t' ∧ t.Grows t' ∧ t.Receives p t' := by
  rw [take_eq] at ht'
  subst ht'
  have hw := (h.port p).alloc hstate
  have hlen : queue p ≠ [] := by
    rw [hw.ready] at hpos
    exact List.ne_nil_of_length_pos (by omega)
  have hhead : (t.porttab p).pthead ≠ 0 := fun hzero =>
    hlen (hw.linked.chain.eq_null_iff.mp hzero)
  obtain ⟨rest, hcons, -⟩ := hw.linked.chain.of_ne_null hhead
  have hnodup := h.parted.nodup h.nodup p
  have hport := h.port p
  have hlinked := hw.linked
  have horder := hw.order
  rw [hcons] at hnodup hport hlinked horder
  rw [List.map_cons] at horder
  refine ⟨⟨(t.porttab p).pthead :: free, upd queue p rest, ?_⟩, grows_put (Int.le_refl _), _, _,
    horder.symm, rfl⟩
  have hapart : (t.porttab p).pthead ∉ free := fun hmem =>
    (List.nodup_append.mp hnodup).2.2 _ hmem _ List.mem_cons_self rfl
  apply h.put (othersStay_upd hpid in_outside)
  · intro x _ hq
    apply upd_of_ne
    rintro rfl
    rw [hcons] at hq
    exact hq List.mem_cons_self
  · exact fun x _ _ => rfl
  · exact h.chain.push hapart hhead
  · rw [hcons]
    exact List.perm_middle.symm
  · refine hport.move (moves_signal (call_kept _ _ hs) hport.senders.nodup) hT
      ⟨rfl, rfl, rfl, rfl⟩ ?_ ?_
    · intro _
      rw [List.length_cons]
      refine ⟨hlinked.take rfl rfl, ?_, by omega, by omega⟩
      rw [List.append_assoc, List.singleton_append]
      exact horder
    · exact fun hne => absurd hstate hne
  · exact (h.cleared p).settled (not_limbo hstate) clears_outside
  · exact Nat.add_le_add_right h.capacity _

end

end PortSystem
end BbbXinu
