import BbbXinu.Properties.PooledBuffers
import BbbXinu.Properties.PortMessages

/-!
# Runs of the port system

Every step of a process in {lit}`ptsend`, {lit}`ptrecv`, {lit}`ptreset`, {lit}`ptdelete` or
{lit}`ptcreate` keeps the ports sound, so a message that was sent is received once and in its
place, or disposed of by a reset.
-/

namespace BbbXinu
namespace PortSystem

/-- All messages that were sent and not received are disposed of, and whoever stands at the port
began its call before. -/
structure Disposes (t : PortSystem) (p : PortId) (t' : PortSystem) : Prop where
  disposed : (t'.log p).disposed =
    (t.log p).disposed ++ (t.log p).sent.drop (t.log p).received.length
  sent : (t'.log p).sent = []
  received : (t'.log p).received = []
  other : ∀ p', p' ≠ p → t'.log p' = t.log p'
  senders : ∀ q ∈ (t.porttab p).ptssem.inside,
    ∃ n < (t'.porttab p).ptseq, Sending p (t'.phase q) n
  receivers : ∀ q ∈ (t.porttab p).ptrsem.inside,
    ∃ n < (t'.porttab p).ptseq, Receiving p (t'.phase q) n

/-- What the call of a process does that need not wait, or was released. -/
def Delivers (t : PortSystem) : PortEvent → PortSystem → Prop
  | .send pid portid msg, t' => ∀ p, port? portid = some p → (t.porttab p).ptstate = .alloc →
      if (t.porttab p).ptssem.Open then t.Sends p msg t'
      else t'.log = t.log ∧ t'.phase pid = .sending p (t.porttab p).ptseq msg
  | .recv pid portid, t' => ∀ p, port? portid = some p → (t.porttab p).ptstate = .alloc →
      if (t.porttab p).ptrsem.Open then t.Receives p t'
      else t'.log = t.log ∧ t'.phase pid = .receiving p (t.porttab p).ptseq
  | .resume pid, t' => match t.phase pid with
      | .sending p seq msg =>
          if (t.porttab p).ptstate = .alloc ∧ (t.porttab p).ptseq = seq then t.Sends p msg t'
          else t'.log = t.log
      | .receiving p seq =>
          if (t.porttab p).ptstate = .alloc ∧ (t.porttab p).ptseq = seq then t.Receives p t'
          else t'.log = t.log
      | _ => t'.log = t.log
  | .reset _ portid, t' | .delete _ portid, t' =>
      ∀ p, port? portid = some p → (t.porttab p).ptstate = .alloc → t.Disposes p t'
  | .create _, t' => ∀ p, (t.porttab p).ptstate ≠ .free → t'.log p = t.log p
  | .clear _, t' | .leave _, t' => t'.log = t.log

/-- A step keeps the ports sound, and delivers the messages. -/
def Keeps (t : PortSystem) (event : PortEvent) (t' : PortSystem) : Prop :=
  Good t' ∧ t.Grows t' ∧ t.Delivers event t'

section

variable {t t' : PortSystem} {free : List Nat} {queue : PortId → List Nat} {p : PortId}
  {e' : PortEntry} {pid : Int} {call : PortCall} {newstate : PtState} {T T' : Turnstile Int}

/-!
## Sending and receiving
-/

/-- A change of a port and a call that leaves the nodes alone. -/
theorem Sound.changeEntry (h : Sound t free queue) (hpid : In (t.phase pid) p) (hcall : In call p)
    (ht' : t' = { t with porttab := upd t.porttab p e', phase := upd t.phase pid call })
    (hport : PortOk t.ptnext t.ptmsg (upd t.phase pid call) p e' (t.log p) (queue p))
    (hcleared : Cleared (upd t.phase pid call) p e' (t.log p))
    (hseq : (t.porttab p).ptseq ≤ e'.ptseq) : Good t' ∧ t.Grows t' ∧ t'.log = t.log := by
  have heq : t' = t.put p e' (t.log p) t.ptnext t.ptmsg t.ptfree (upd t.phase pid call) := by
    rw [ht', PortSystem.put, upd_eq_self rfl]
  refine ⟨⟨free, upd queue p (queue p), ?_⟩, by rw [heq]; exact grows_put hseq, by rw [ht']⟩
  rw [heq]
  exact h.put (othersStay_upd hpid hcall) (fun _ _ _ => rfl) (fun _ _ _ => rfl) h.chain
    (List.Perm.refl _) hport hcleared (Nat.add_le_add_right h.capacity _)

/-- A process comes to the semaphores of a port, or leaves them, and no unit is used. -/
theorem Sound.moveEntry (h : Sound t free queue) (hpid : In (t.phase pid) p) (hcall : In call p)
    (hclears : ∀ q, Clears (upd t.phase pid call) q p → upd t.phase pid call q = t.phase q)
    (hs : Moves (Sending p) t.phase (upd t.phase pid call) p (t.porttab p).ptseq
      (t.porttab p).ptssem T 0)
    (hr : Moves (Receiving p) t.phase (upd t.phase pid call) p (t.porttab p).ptseq
      (t.porttab p).ptrsem T' 0)
    (hother : (t.porttab p).ptstate ≠ .alloc →
      (∀ q ∈ T.inside, q ∈ (t.porttab p).ptssem.inside ∧ upd t.phase pid call q = t.phase q) ∧
      (∀ q ∈ T'.inside, q ∈ (t.porttab p).ptrsem.inside ∧ upd t.phase pid call q = t.phase q) ∧
      T.queue = (t.porttab p).ptssem.queue ∧ T'.queue = (t.porttab p).ptrsem.queue)
    (ht' : t' = { t with
      porttab := upd t.porttab p { t.porttab p with ptssem := T, ptrsem := T' }
      phase := upd t.phase pid call }) : Good t' ∧ t.Grows t' ∧ t'.log = t.log := by
  have hlimbo (h : (t.porttab p).ptstate = .limbo) : (t.porttab p).ptstate ≠ .alloc :=
    fun halloc => not_limbo halloc h
  apply h.changeEntry hpid hcall ht' _ _ (Int.le_refl _)
  · refine (h.port p).move hs hr ⟨rfl, rfl, rfl, rfl⟩ ?_ ?_
    · intro hstate
      have hw := (h.port p).alloc hstate
      exact ⟨⟨hw.linked.chain, hw.linked.tail⟩, hw.order, by omega, by omega⟩
    · exact fun hne => ⟨rfl, (hother hne).1, (hother hne).2.1⟩
  · apply (h.cleared p).congr hclears
    · intro newstate hclearing
      have hqueue := (hother (hlimbo hclearing.limbo)).2.2.1
      refine ⟨hclearing.limbo, ?_, ?_⟩
      · dsimp only
        rw [hqueue]
        exact hclearing.swaiters
      · dsimp only
        rw [hqueue]
        exact hclearing.alloc
    · exact fun hstate => (hother (hlimbo hstate)).2.2.2

theorem setPhase_self (h : t.phase pid = call) : t.setPhase pid call = t := by
  unfold setPhase
  rw [upd_eq_self h]

/-- A process in neither call stands at no semaphore. -/
theorem Sound.apart (h : Sound t free queue)
    (hpid : ∀ p n, ¬Sending p (t.phase pid) n ∧ ¬Receiving p (t.phase pid) n) (p : PortId) :
    pid ∉ (t.porttab p).ptssem.inside ∧ pid ∉ (t.porttab p).ptrsem.inside :=
  ⟨(h.port p).senders.not_mem fun n => (hpid p n).1,
    (h.port p).receivers.not_mem fun n => (hpid p n).2⟩

theorem Sound.outside (h : Sound t free queue) (hpid : t.phase pid = .outside) (p : PortId) :
    In (t.phase pid) p ∧ pid ∉ (t.porttab p).ptssem.inside ∧
      pid ∉ (t.porttab p).ptrsem.inside := by
  refine ⟨by rw [hpid]; exact in_outside, h.apart ?_ p⟩
  rw [hpid]
  exact fun p n => ⟨fun hcall => hcall.elim fun _ => PortCall.noConfusion, PortCall.noConfusion⟩

/-- A call of {lit}`ptsend` or {lit}`ptrecv` concerns its port only, and clears none. -/
theorem in_call (phase : Int → PortCall) (pid : Int)
    (hcall : (∃ n, Sending p call n) ∨ ∃ n, Receiving p call n) :
    In call p ∧ ∀ q, Clears (upd phase pid call) q p → upd phase pid call q = phase q := by
  constructor
  · rintro p' (⟨n, ⟨msg, h⟩ | h⟩ | ⟨newstate, h | h⟩)
    all_goals
      rcases hcall with ⟨n, msg', h'⟩ | ⟨n, h'⟩
      all_goals cases h.symm.trans h'
    all_goals rfl
  · rintro q ⟨newstate, hq⟩
    apply upd_of_ne
    rintro rfl
    rw [upd_self] at hq
    rcases hcall with ⟨n, msg', h'⟩ | ⟨n, h'⟩ <;> rcases hq with hq | hq <;> cases hq.symm.trans h'

/-- A call for a port that is not allocated does nothing. -/
theorem Good.allocated {portid : Int} {f : PortId → PortSystem} {D : PortId → Prop} (h : Good t)
    (ht' : t' = match port? portid with
      | none => t
      | some p => if (t.porttab p).ptstate ≠ .alloc then t else f p)
    (hf : ∀ p, (t.porttab p).ptstate = .alloc → t' = f p → Good t' ∧ t.Grows t' ∧ D p) :
    Good t' ∧ t.Grows t' ∧ ∀ p, port? portid = some p → (t.porttab p).ptstate = .alloc → D p := by
  cases hport : port? portid with
  | none =>
      rw [hport] at ht'
      subst ht'
      exact ⟨h, fun _ => Int.le_refl _, fun p hp => nomatch hp⟩
  | some p =>
      rw [hport] at ht'
      by_cases hstate : (t.porttab p).ptstate = .alloc
      · obtain ⟨hgood, hgrows, hD⟩ := hf p hstate (ht'.trans (if_neg (not_not.mpr hstate)))
        refine ⟨hgood, hgrows, fun p' hp' _ => ?_⟩
        cases hp'
        exact hD
      · obtain rfl : t' = t := ht'.trans (if_pos hstate)
        refine ⟨h, fun _ => Int.le_refl _, fun p' hp' hstate' => ?_⟩
        cases hp'
        exact absurd hstate' hstate

theorem Sound.send {portid : Int} {msg : Nat} (h : Sound t free queue)
    (hpid : t.phase pid = .outside) (ht' : t' = t.ptsend pid portid msg) :
    t.Keeps (.send pid portid msg) t' := by
  refine Good.allocated ⟨free, queue, h⟩ ht' fun p hstate ht' => ?_
  obtain ⟨hin, hs, hr⟩ := h.outside hpid p
  have hnodup := (h.port p).senders.nodup
  by_cases hopen : (t.porttab p).ptssem.Open
  · rw [if_pos hopen] at ht' ⊢
    rw [← setPhase_self (t := t.setEntry p _) hpid] at ht'
    exact h.deposit hin hstate (moves_enter_open hopen (call_kept _ _ hs) hnodup)
      (Turnstile.unitsOf_pos_of_open hopen) hr ht'
  · rw [if_neg hopen] at ht' ⊢
    have hmoves : Moves (Sending p) t.phase (upd t.phase pid (.sending p (t.porttab p).ptseq msg)) p
        (t.porttab p).ptseq (t.porttab p).ptssem ((t.porttab p).ptssem.enter pid) 0 :=
      moves_enter_closed hopen hs hnodup counted_sending ⟨msg, rfl⟩
    obtain ⟨hcall, hclears⟩ := in_call t.phase pid (Or.inl ⟨_, msg, rfl⟩)
    obtain ⟨hgood, hgrows, hlog⟩ := h.moveEntry hin hcall hclears hmoves
      (moves_stay (call_kept _ _ hr) (h.port p).receivers.nodup) (fun hne => absurd hstate hne) ht'
    refine ⟨hgood, hgrows, hlog, ?_⟩
    rw [ht']
    exact upd_self

theorem Sound.recv {portid : Int} (h : Sound t free queue) (hpid : t.phase pid = .outside)
    (ht' : t' = t.ptrecv pid portid) : t.Keeps (.recv pid portid) t' := by
  refine Good.allocated ⟨free, queue, h⟩ ht' fun p hstate ht' => ?_
  obtain ⟨hin, hs, hr⟩ := h.outside hpid p
  have hnodup := (h.port p).receivers.nodup
  by_cases hopen : (t.porttab p).ptrsem.Open
  · rw [if_pos hopen] at ht' ⊢
    rw [← setPhase_self (t := t.setEntry p _) hpid] at ht'
    exact h.take hin hstate (moves_enter_open hopen (call_kept _ _ hr) hnodup)
      (Turnstile.unitsOf_pos_of_open hopen) hs ht'
  · rw [if_neg hopen] at ht' ⊢
    have hmoves : Moves (Receiving p) t.phase (upd t.phase pid (.receiving p (t.porttab p).ptseq)) p
        (t.porttab p).ptseq (t.porttab p).ptrsem ((t.porttab p).ptrsem.enter pid) 0 :=
      moves_enter_closed hopen hr hnodup counted_receiving rfl
    obtain ⟨hcall, hclears⟩ := in_call t.phase pid (Or.inr ⟨_, rfl⟩)
    obtain ⟨hgood, hgrows, hlog⟩ := h.moveEntry hin hcall hclears
      (moves_stay (call_kept _ _ hs) (h.port p).senders.nodup) hmoves (fun hne => absurd hstate hne)
      ht'
    refine ⟨hgood, hgrows, hlog, ?_⟩
    rw [ht']
    exact upd_self

/-!
## Going on after a wait
-/

/-- Whoever was released counts just when the port was not cleared since. -/
theorem Sound.counts {kind : PortCall → Int → Prop} {seq : Int} (h : Sound t free queue)
    (hcounted : Counted p kind) (hkind : kind (t.phase pid) seq)
    (hin : pid ∈ (t.porttab p).ptssem.inside ∨ pid ∈ (t.porttab p).ptrsem.inside) :
    if (t.porttab p).ptstate = .alloc ∧ (t.porttab p).ptseq = seq
      then current t.phase p (t.porttab p).ptseq pid = true
      else current t.phase p (t.porttab p).ptseq pid = false := by
  have hsame := hcounted t.phase pid seq (t.porttab p).ptseq hkind
  split
  · rename_i hcurrent
    exact hsame.trans (decide_eq_true hcurrent.2.symm)
  · rename_i hstale
    by_cases hstate : (t.porttab p).ptstate = .alloc
    · exact hsame.trans (decide_eq_false fun hseq => hstale ⟨hstate, hseq.symm⟩)
    · have hrest := (h.port p).other hstate
      exact hin.elim (hrest.sstale pid) (hrest.rstale pid)

theorem resume_porttab (t : PortSystem) (p : PortId) (pid : Int) (f : PortEntry → PortEntry) :
    ((t.setEntry p f).setPhase pid .outside).porttab p = f (t.porttab p) := upd_self

theorem Sound.resumeSend {seq : Int} {msg : Nat} (h : Sound t free queue)
    (hphase : t.phase pid = .sending p seq msg) (hgranted : pid ∈ (t.porttab p).ptssem.granted)
    (ht' : t' = t.ptsendResume pid p seq msg) : t.Keeps (.resume pid) t' := by
  have hin := (in_call t.phase pid (Or.inl ⟨seq, msg, hphase⟩)).1
  have hr : pid ∉ (t.porttab p).ptrsem.inside := by
    apply (h.port p).receivers.not_mem
    rw [hphase]
    exact fun _ => PortCall.noConfusion
  have hcounts := h.counts counted_sending ⟨msg, hphase⟩ (Or.inl (List.mem_append_right _ hgranted))
  have hnodup := (h.port p).senders.nodup
  simp only [Keeps, Delivers, hphase]
  unfold ptsendResume at ht'
  simp only [resume_porttab] at ht'
  by_cases hcurrent : (t.porttab p).ptstate = .alloc ∧ (t.porttab p).ptseq = seq
  · obtain ⟨hstate, hseq⟩ := hcurrent
    rw [if_pos ⟨hstate, hseq⟩] at hcounts ⊢
    rw [if_neg (by rw [not_or, not_not, not_not]; exact ⟨hstate, hseq⟩)] at ht'
    exact h.deposit hin hstate (moves_resume hgranted hnodup (by rw [if_pos hcounts])).1
      (Turnstile.unitsOf_pos_of_granted ((h.port p).alloc hstate).swaiters hgranted hcounts) hr ht'
  · rw [if_neg hcurrent] at hcounts ⊢
    rw [if_pos (not_and_or.mp hcurrent)] at ht'
    obtain ⟨hmoves, hkept⟩ := moves_resume hgranted hnodup
      (show (0 : Int) = _ by rw [if_neg (Bool.eq_false_iff.mp hcounts)])
    exact h.moveEntry hin in_outside clears_outside hmoves
      (moves_stay (call_kept _ _ hr) (h.port p).receivers.nodup)
      (fun _ => ⟨hkept, fun q hq => ⟨hq, call_kept _ _ hr q hq⟩, rfl, rfl⟩) ht'

theorem Sound.resumeRecv {seq : Int} (h : Sound t free queue)
    (hphase : t.phase pid = .receiving p seq) (hgranted : pid ∈ (t.porttab p).ptrsem.granted)
    (ht' : t' = t.ptrecvResume pid p seq) : t.Keeps (.resume pid) t' := by
  have hin := (in_call t.phase pid (Or.inr ⟨seq, hphase⟩)).1
  have hs : pid ∉ (t.porttab p).ptssem.inside := by
    apply (h.port p).senders.not_mem
    rw [hphase]
    rintro n ⟨msg, hcall⟩
    cases hcall
  have hcounts := h.counts counted_receiving hphase (Or.inr (List.mem_append_right _ hgranted))
  have hnodup := (h.port p).receivers.nodup
  simp only [Keeps, Delivers, hphase]
  unfold ptrecvResume at ht'
  simp only [resume_porttab] at ht'
  by_cases hcurrent : (t.porttab p).ptstate = .alloc ∧ (t.porttab p).ptseq = seq
  · obtain ⟨hstate, hseq⟩ := hcurrent
    rw [if_pos ⟨hstate, hseq⟩] at hcounts ⊢
    rw [if_neg (by rw [not_or, not_not, not_not]; exact ⟨hstate, hseq⟩)] at ht'
    exact h.take hin hstate (moves_resume hgranted hnodup (by rw [if_pos hcounts])).1
      (Turnstile.unitsOf_pos_of_granted ((h.port p).alloc hstate).rwaiters hgranted hcounts) hs ht'
  · rw [if_neg hcurrent] at hcounts ⊢
    rw [if_pos (not_and_or.mp hcurrent)] at ht'
    obtain ⟨hmoves, hkept⟩ := moves_resume hgranted hnodup
      (show (0 : Int) = _ by rw [if_neg (Bool.eq_false_iff.mp hcounts)])
    exact h.moveEntry hin in_outside clears_outside
      (moves_stay (call_kept _ _ hs) (h.port p).senders.nodup) hmoves
      (fun _ => ⟨fun q hq => ⟨hq, call_kept _ _ hs q hq⟩, hkept, rfl, rfl⟩) ht'

/-!
## Clearing
-/

/-- What the first part of {lit}`_ptclear` leaves. -/
theorem ptclear_eq : t.ptclear pid p newstate =
    t.put p
      { t.porttab p with
        ptstate := .limbo
        ptseq := int32 ((t.porttab p).ptseq + 1)
        ptssem := (t.porttab p).ptssem.reset
          (if newstate = .alloc then (t.porttab p).ptmaxcnt else 0)
        pthead := if newstate = .alloc then 0 else (t.porttab p).pthead
        pttail := if newstate = .alloc then 0 else (t.porttab p).pttail }
      { capacity := if newstate = .alloc then (t.log p).capacity else 0
        sent := []
        received := []
        disposed := (t.log p).disposed ++ t.walk t.nodes.length (t.porttab p).pthead }
      (if (t.porttab p).pthead = 0 then t.ptnext else upd t.ptnext (t.porttab p).pttail t.ptfree)
      t.ptmsg (if (t.porttab p).pthead = 0 then t.ptfree else (t.porttab p).pthead)
      (upd t.phase pid (.clearing p newstate)) := by
  unfold ptclear setEntry setLog setPhase put
  by_cases hhead : (t.porttab p).pthead = 0 <;> by_cases halloc : newstate = .alloc <;>
    simp [hhead, halloc]

/-- The queue of a port is put in front of the free list. -/
theorem Linked.splice {ptnext : Nat → Nat} {e : PortEntry} {l l' : List Nat} {a : Nat}
    (h : Linked ptnext e l) (hfree : Chains.Chain ptnext 0 a l') (hnodup : (l' ++ l).Nodup) :
    Chains.Chain (if e.pthead = 0 then ptnext else upd ptnext e.pttail a) 0
      (if e.pthead = 0 then a else e.pthead) (l ++ l') := by
  by_cases hhead : e.pthead = 0
  · rw [if_pos hhead, if_pos hhead, h.chain.eq_null_iff.mp hhead]
    exact hfree
  · rw [if_neg hhead, if_neg hhead]
    obtain ⟨l₁, hl⟩ := h.split fun hnil => hhead (h.chain.eq_null_iff.mpr hnil)
    have hchain := h.chain
    rw [hl] at hchain hnodup ⊢
    rw [List.append_assoc]
    apply hchain.append hfree
    intro hmem
    exact (List.nodup_append.mp hnodup).2.2 _ hmem _
      (List.mem_append_right l₁ (List.mem_singleton_self _)) rfl

theorem in_clears (hcall : ∃ newstate, call = .clearing p newstate ∨ call = .cleared p newstate) :
    In call p := by
  obtain ⟨newstate, rfl | rfl⟩ := hcall
  all_goals
    rintro p' (⟨n, ⟨msg, h⟩ | h⟩ | ⟨newstate, h | h⟩) <;> cases h
    rfl

theorem Sound.ptclear (h : Sound t free queue) (hpid : t.phase pid = .outside)
    (hstate : (t.porttab p).ptstate = .alloc)
    (hseq : int32 ((t.porttab p).ptseq + 1) = (t.porttab p).ptseq + 1)
    (ht' : t' = t.ptclear pid p newstate) : Good t' ∧ t.Grows t' ∧ t.Disposes p t' := by
  obtain ⟨hin, hs, hr⟩ := h.outside hpid p
  have hw := (h.port p).alloc hstate
  have hlen : (queue p).length ≤ t.nodes.length := by
    have hall := (h.parted.split p).length_eq
    rw [List.length_append, List.length_append] at hall
    omega
  rw [ptclear_eq, hseq, walk_eq hw.linked.chain hlen] at ht'
  subst ht'
  have hlt : (t.porttab p).ptseq < (t.porttab p).ptseq + 1 := by omega
  refine ⟨⟨queue p ++ free, upd queue p [], ?_⟩, grows_put (Int.le_of_lt hlt), ?_⟩
  · apply h.put (othersStay_upd hin (in_clears ⟨newstate, Or.inl rfl⟩))
    · intro x _ hq
      split
      · rfl
      · rename_i hhead
        obtain ⟨l, hl⟩ := hw.linked.split fun hnil => hhead (hw.linked.chain.eq_null_iff.mpr hnil)
        apply upd_of_ne
        rintro rfl
        rw [hl] at hq
        exact hq (List.mem_append_right l (List.mem_singleton_self _))
    · exact fun _ _ _ => rfl
    · exact hw.linked.splice h.chain (h.parted.nodup h.nodup p)
    · rw [List.append_nil]
      exact List.perm_append_comm
    · exact (h.port p).clear hlt (call_kept _ _ hs) (call_kept _ _ hr)
    · apply cleared_upd
      · intro q hq
        obtain ⟨newstate', hq⟩ := hq
        exact absurd ((h.cleared p).clearing q newstate' hq).limbo (not_limbo hstate)
      · rintro newstate' (hcall | hcall) <;> cases hcall
        refine ⟨rfl, rfl, ?_⟩
        rintro rfl
        exact ⟨rfl, rfl, rfl, hw.ptmaxcnt, rfl, rfl⟩
      · exact fun _ => PortCall.noConfusion
    · have hcapacity := h.capacity
      dsimp only
      split <;> omega
  · have horder : (t.log p).sent.drop (t.log p).received.length = (queue p).map t.ptmsg := by
      rw [← hw.order, List.drop_left]
    constructor
    · rw [put_log, upd_self, horder]
    · rw [put_log, upd_self]
    · rw [put_log, upd_self]
    · exact fun p' hne => upd_of_ne hne
    · rw [put_porttab, put_phase, upd_self]
      exact (h.port p).senders.before hlt (call_kept _ _ hs)
    · rw [put_porttab, put_phase, upd_self]
      exact (h.port p).receivers.before hlt (call_kept _ _ hr)

theorem Sound.clearer (h : Sound t free queue) (hpid : Clears t.phase pid p) :
    In (t.phase pid) p ∧ pid ∉ (t.porttab p).ptssem.inside ∧
      pid ∉ (t.porttab p).ptrsem.inside := by
  refine ⟨in_clears hpid, h.apart ?_ p⟩
  obtain ⟨new, hpid | hpid⟩ := hpid <;> rw [hpid]
  all_goals
    exact fun p n => ⟨fun hcall => hcall.elim fun _ => PortCall.noConfusion, PortCall.noConfusion⟩

theorem Sound.clearRecv (h : Sound t free queue) (hphase : t.phase pid = .clearing p newstate)
    (ht' : t' = (t.setEntry p fun e => { e with ptrsem := e.ptrsem.reset 0 }).setPhase pid
      (.cleared p newstate)) : t.Keeps (.clear pid) t' := by
  have hclears : Clears t.phase pid p := ⟨newstate, Or.inl hphase⟩
  have hclearing := (h.cleared p).clearing pid newstate (Or.inl hphase)
  obtain ⟨hin, hs, hr⟩ := h.clearer hclears
  apply h.changeEntry hin (in_clears ⟨newstate, Or.inr rfl⟩) ht' _ _ (Int.le_refl _)
  · exact ((h.port p).congr (fun _ _ => rfl) (fun _ _ => rfl) (call_kept _ _ hs)
      (call_kept _ _ hr)).clearRecv hclearing.limbo
  · apply cleared_upd (fun q hq => (h.cleared p).one q pid hq hclears) _ fun _ _ =>
      ⟨rfl, fun _ => rfl⟩
    rintro newstate' (hcall | hcall) <;> cases hcall
    exact ⟨hclearing.limbo, hclearing.swaiters, hclearing.alloc⟩

theorem Good.setNextid (h : Good t) (p : PortId) : Good { t with ptnextid := p } := by
  obtain ⟨free, queue, h⟩ := h
  exact ⟨free, queue, h.panicked, h.chain, h.nodup, h.parted, h.port, h.cleared, h.capacity⟩

theorem Sound.leave (h : Sound t free queue) (hphase : t.phase pid = .cleared p newstate)
    (ht' : t' = (t.setEntry p fun e => { e with ptstate := newstate }).setPhase pid .outside) :
    t.Keeps (.leave pid) t' := by
  have hclears : Clears t.phase pid p := ⟨newstate, Or.inr hphase⟩
  have hclearing := (h.cleared p).clearing pid newstate (Or.inr hphase)
  obtain ⟨hwaiters, hcount⟩ := (h.cleared p).cleared pid newstate hphase
  obtain ⟨hin, hs, hr⟩ := h.clearer hclears
  apply h.changeEntry hin in_outside ht' _ _ (Int.le_refl _)
  · exact ((h.port p).congr (fun _ _ => rfl) (fun _ _ => rfl) (call_kept _ _ hs)
      (call_kept _ _ hr)).leave hclearing hwaiters hcount
  · exact cleared_upd (fun q hq => (h.cleared p).one q pid hq hclears)
      (fun _ hcall => hcall.elim PortCall.noConfusion PortCall.noConfusion)
      fun _ => PortCall.noConfusion

/-!
## Creating
-/

/-- The sequence numbers do not overflow. -/
def CanCount (t : PortSystem) : Prop :=
  ∀ p, int32 ((t.porttab p).ptseq + 1) = (t.porttab p).ptseq + 1

/-- The capacities of the ports are at most the number of nodes, and the sequence numbers do not
overflow. -/
def Proper (t : PortSystem) : PortEvent → Prop
  | .create count => t.capacity + count.toNat ≤ t.nodes.length ∧ t.CanCount
  | .reset _ _ | .delete _ _ => t.CanCount
  | .send _ _ _ | .recv _ _ | .resume _ | .clear _ | .leave _ => True

theorem Sound.createAt {count : Nat} (h : Sound t free queue)
    (hstate : (t.porttab p).ptstate = .free) (hcapacity : t.capacity + count ≤ t.nodes.length)
    (hcount : t.CanCount) (ht' : t' = t.createAt p count) :
    Good t' ∧ t.Grows t' ∧ ∀ p', p' ≠ p → t'.log p' = t.log p' := by
  have hempty : queue p = [] := ((h.port p).other (by rw [hstate]; decide)).empty
  have heq : t' = t.put p
      { ptssem := (t.porttab p).ptssem.reset count, ptrsem := (t.porttab p).ptrsem.reset 0
        ptstate := .alloc, ptmaxcnt := uint16 count, ptseq := (t.porttab p).ptseq + 1
        pthead := 0, pttail := 0 }
      { capacity := count, sent := [], received := [], disposed := (t.log p).disposed }
      t.ptnext t.ptmsg t.ptfree t.phase := by
    rw [ht', ← hcount p]
    rfl
  subst heq
  have hlt : (t.porttab p).ptseq < (t.porttab p).ptseq + 1 := by omega
  refine ⟨⟨free, upd queue p [], ?_⟩, grows_put (Int.le_of_lt hlt), fun p' hne => upd_of_ne hne⟩
  apply h.put (fun _ => Or.inl rfl) (fun _ _ _ => rfl) (fun _ _ _ => rfl) h.chain
  · rw [hempty]
  · exact (h.port p).create hlt rfl ⟨rfl, rfl, rfl⟩
  · exact (h.cleared p).settled (by rw [hstate]; decide) fun _ _ => rfl
  · dsimp only
    omega

/-- The search for a free entry. -/
theorem Good.createLoop {count n : Nat} (h : Good t)
    (hcapacity : t.capacity + count ≤ t.nodes.length) (hcount : t.CanCount) :
    Good (createLoop count n t) ∧ t.Grows (createLoop count n t) ∧
      ∀ p, (t.porttab p).ptstate ≠ .free → (createLoop count n t).log p = t.log p := by
  induction n generalizing t with
  | zero => exact ⟨h, fun _ => Int.le_refl _, fun _ _ => rfl⟩
  | succ n ih =>
      have hnext := h.setNextid (following t.ptnextid)
      unfold PortSystem.createLoop
      dsimp only
      split
      · rename_i hfree
        obtain ⟨free, queue, hsound⟩ := hnext
        obtain ⟨hgood, hgrows, hlog⟩ := hsound.createAt hfree hcapacity hcount rfl
        refine ⟨hgood, hgrows, fun p hp => hlog p ?_⟩
        rintro rfl
        exact hp hfree
      · exact ih hnext hcapacity hcount

theorem Good.create {count : Int} (h : Good t) (hproper : t.Proper (.create count))
    (ht' : t' = t.ptcreate count) : t.Keeps (.create count) t' := by
  unfold ptcreate at ht'
  split at ht'
  · subst ht'
    exact ⟨h, fun _ => Int.le_refl _, fun _ _ => rfl⟩
  · subst ht'
    exact h.createLoop hproper.1 hproper.2

/-!
## Runs
-/

theorem Init.good (h : Init t) : Good t := by
  obtain ⟨maxmsgs, ptnext, hmsgs, hpos, hend, hnext, hnodes⟩ := h.nodes
  have hchain : Chains.Chain t.ptnext 0 t.ptfree t.nodes := by
    rw [hnext, hnodes, show maxmsgs = maxmsgs - 1 + 1 from by omega]
    exact (BufferPools.linkBuffers_chain ptnext hpos (by decide) (by omega)).1
  refine ⟨t.nodes, fun _ => [], h.panicked, hchain, hchain.nodup, Parted.all_free, ?_, ?_, ?_⟩
  · intro p
    obtain ⟨hs, hr⟩ := h.sems p
    have hnone : ∀ {kind : PortCall → Int → Prop} {T : Turnstile Int}, T = Turnstile.idle 0 →
        Line kind t.phase (t.porttab p).ptseq T := by
      rintro kind T rfl
      exact ⟨fun _ hq => (nomatch hq), List.nodup_nil⟩
    refine ⟨hnone hs, hnone hr, fun halloc => ?_, fun _ => ⟨rfl, ?_, ?_⟩⟩
    · cases (h.ptstate p).symm.trans halloc
    · rw [hs]
      exact fun _ hq => nomatch hq
    · rw [hr]
      exact fun _ hq => nomatch hq
  · intro p
    have hout : ∀ q, ¬Clears t.phase q p := by
      rintro q ⟨newstate, hq⟩
      rw [h.phase] at hq
      exact hq.elim PortCall.noConfusion PortCall.noConfusion
    exact ⟨fun q newstate hq => absurd ⟨newstate, hq⟩ (hout q),
      fun q newstate hq => absurd ⟨newstate, Or.inr hq⟩ (hout q), fun q _ hq => absurd hq (hout q)⟩
  · have hzero : t.capacity = 0 := by
      apply List.sum_eq_zero
      intro c hc
      obtain ⟨p, -, rfl⟩ := List.mem_map.mp hc
      exact h.log p
    omega

theorem Good.step {event : PortEvent} (h : Good t) (hproper : t.Proper event)
    (hs : t.step event = some t') : t.Keeps event t' := by
  obtain ⟨free, queue, hsound⟩ := id h
  unfold PortSystem.step at hs
  rw [if_neg (by rw [hsound.panicked]; exact Bool.false_ne_true)] at hs
  cases event with
  | create count => exact h.create hproper (Option.some.inj hs).symm
  | send pid portid msg =>
      dsimp only at hs
      split at hs
      · exact hsound.send ‹_› (Option.some.inj hs).symm
      · cases hs
  | recv pid portid =>
      dsimp only at hs
      split at hs
      · exact hsound.recv ‹_› (Option.some.inj hs).symm
      · cases hs
  | resume pid =>
      dsimp only at hs
      split at hs
      · split at hs
        · exact hsound.resumeSend ‹_› ‹_› (Option.some.inj hs).symm
        · cases hs
      · split at hs
        · exact hsound.resumeRecv ‹_› ‹_› (Option.some.inj hs).symm
        · cases hs
      · cases hs
  | reset pid portid =>
      dsimp only at hs
      split at hs
      · exact h.allocated (Option.some.inj hs).symm fun p hstate ht' =>
          hsound.ptclear ‹_› hstate (hproper p) ht'
      · cases hs
  | delete pid portid =>
      dsimp only at hs
      split at hs
      · exact h.allocated (Option.some.inj hs).symm fun p hstate ht' =>
          hsound.ptclear ‹_› hstate (hproper p) ht'
      · cases hs
  | clear pid =>
      dsimp only at hs
      split at hs
      · exact hsound.clearRecv ‹_› (Option.some.inj hs).symm
      · cases hs
  | leave pid =>
      dsimp only at hs
      split at hs
      · rename_i p newstate hphase
        obtain ⟨hgood, hgrows, hlog⟩ := hsound.leave hphase rfl
        obtain rfl := Option.some.inj hs
        split
        · exact ⟨hgood.setNextid p, hgrows, hlog⟩
        · exact ⟨hgood, hgrows, hlog⟩
      · cases hs

end

/-- Every node is free or in the queue of one port, and every port that is allocated has just the
messages that were sent and not received. -/
structure Kept (t : PortSystem) : Prop where
  running : t.panicked = false
  nodes : ∃ free queue, Chains.Chain t.ptnext 0 t.ptfree free ∧ t.nodes.Nodup ∧
    Parted t.nodes free queue ∧
    ∀ p, if (t.porttab p).ptstate = .alloc
      then Working t.ptnext t.ptmsg t.phase p (t.porttab p) (t.log p) (queue p) else queue p = []

/-- In every run, a process that need not wait or was released sends its message, or receives
the next one, unless the port was cleared since its call began; a reset or a deletion disposes of
just the messages that were sent and not received. -/
theorem messages_kept {t : PortSystem} (h : Runs.Reach step Proper Init t) :
    t.Kept ∧ ∀ event t', t.Proper event → t.step event = some t' →
      t.Grows t' ∧ t.Delivers event t' := by
  have hgood : t.Good := by
    apply h.invariant
    · exact fun _ hinit => hinit.good
    · exact fun _ _ _ _ hI hproper hs => (hI.step hproper hs).1
  constructor
  · obtain ⟨free, queue, hsound⟩ := hgood
    refine ⟨hsound.panicked, free, queue, hsound.chain, hsound.nodup, hsound.parted, fun p => ?_⟩
    split
    · exact (hsound.port p).alloc ‹_›
    · exact ((hsound.port p).other ‹_›).empty
  · exact fun event t' hproper hs => (hgood.step hproper hs).2

instance (t : PortSystem) (event : PortEvent) : Decidable (t.Proper event) :=
  match event with
  | .create _ => inferInstanceAs (Decidable (_ ≤ _ ∧ ∀ _, _ = _))
  | .reset _ _ | .delete _ _ => inferInstanceAs (Decidable (∀ _, _ = _))
  | .send _ _ _ | .recv _ _ | .resume _ | .clear _ | .leave _ => inferInstanceAs (Decidable True)

/-- No ports yet, and three nodes. -/
def noPorts : PortSystem where
  ptnext := Pools.linkBuffers 8 2 4096 fun _ => 0
  ptmsg := fun _ => 0
  ptfree := 4096
  porttab := fun _ =>
    { ptssem := Turnstile.idle 0, ptrsem := Turnstile.idle 0, ptstate := .free
      ptmaxcnt := 0, ptseq := 0, pthead := 0, pttail := 0 }
  ptnextid := ⟨0, by decide⟩
  phase := fun _ => .outside
  panicked := false
  nodes := Chains.blocks 8 4096 3
  log := fun _ => { capacity := 0, sent := [], received := [], disposed := [] }

theorem init_noPorts : noPorts.Init where
  nodes := ⟨3, fun _ => 0, by decide, by decide, by decide, rfl, rfl⟩
  sems := fun _ => ⟨rfl, rfl⟩
  ptstate := fun _ => rfl
  ptseq := fun _ => rfl
  phase := fun _ => rfl
  panicked := rfl
  log := fun _ => rfl

/-- A sender waits for room; two messages are received, and a third one is disposed of. -/
theorem messages_kept_three : ∃ t : PortSystem,
    ((t.porttab 0).ptstate = .alloc ∧ (t.log 0).disposed = [7] ∧ (t.log 0).sent = [] ∧
      t.phase 2 = .outside) ∧ t.Kept := by
  obtain ⟨t, ht, hlog⟩ := Runs.exists_reach_of_follow step Proper init_noPorts
    [.create 1, .send 1 0 5, .send 2 0 6, .recv 3 0, .resume 2, .recv 3 0, .send 1 0 7, .send 2 0 8,
      .reset 4 0, .clear 4, .leave 4, .resume 2]
    (fun t => (t.porttab 0).ptstate = .alloc ∧ (t.log 0).disposed = [7] ∧ (t.log 0).sent = [] ∧
      t.phase 2 = .outside) (by decide +kernel)
  exact ⟨t, hlog, (messages_kept ht).1⟩

end PortSystem
end BbbXinu
