import BbbXinu.Invariant.CallServes
import BbbXinu.Lib.CountingQueue
import BbbXinu.Properties.Effects

/-!
# Messages

The message of each process is a mailbox of one word.  An observer notes which
messages are accepted for a process and which it takes, from its creation on.
-/

namespace BbbXinu

open LinkedLists Runs Mailbox

/-- The message that waits for the process. -/
def Xinu.word (s : Xinu) (p : Int) : Option Int :=
  if (s.proctab p).prhasmsg = true then some (s.proctab p).prmsg else none

/-!
## Who wakes up and who waits
-/

/-- The step wakes the process: it waits for no message, gets one, or is freed. -/
def Xinu.Wakes (s : Xinu) (l : Label) (s' : Xinu) (p : Int) : Prop :=
  (s.proctab p).prstate ≠ .recv ∨ (∃ msg, s.posted l = some (p, msg)) ∨
    (s'.proctab p).prstate = .free

/-- Only a process without a message starts waiting for one. -/
def Xinu.Parks (s : Xinu) (p : Int) (st : PrState) : Prop :=
  st ≠ .recv ∧ st ≠ .rectim ∨ p = s.currpid ∧ (s.proctab p).prhasmsg = false

section

variable {w : Watch} {g : View} {s s' : Xinu} {l : Label} {sem : Int}

theorem wakes_of_state {st : PrState} {p : Int} (h : (s.proctab p).prstate = st)
    (hst : st ≠ .recv) : s.Wakes l s' p := by
  left
  rw [h]
  exact hst

theorem Plain.wakes_sem (hP : Plain w g s) (hgood : ¬ isbadsem sem) :
    ∀ p ∈ g.lists (semq sem), s.Wakes l s' p := by
  intro p hp
  have hT := tablesAgree_of_good hP.good hP.calm
  have hI := hP.good.ok.inv
  have hmem : p ∈ lists s.queuetab (s.semtab sem).squeue := by
    rw [hI.squeue sem hgood, hI.lists_eq _ (semq_ne_readylist hgood)]
    exact hp
  exact wakes_of_state ((hT.wait p sem hgood).mpr hmem).1 fun h => by cases h

theorem Plain.wakes_sleepq (hP : Plain w g s) : ∀ p ∈ g.lists sleepq, s.Wakes l s' p := by
  intro p hp
  have hT := tablesAgree_of_good hP.good hP.calm
  rw [← hP.good.ok.inv.lists_sleepq] at hp
  rcases (hT.asleep p).mpr hp with h | h
  · exact wakes_of_state h fun h => by cases h
  · exact wakes_of_state h fun h => by cases h

theorem parks_of_ne {p : Int} {st : PrState} (h : st ≠ .recv) (h' : st ≠ .rectim) :
    s.Parks p st := Or.inl ⟨h, h'⟩

theorem create_moved {woken : Int → Prop} {stops : Int → PrState → Prop} (ssize : Nat)
    (priority : Int) (hw : ∀ p, (s.proctab p).prstate = .free → woken p)
    (hst : ∀ p, stops p .susp) : Moved woken stops s (s.create ssize priority) := by
  rcases create_cases s ssize priority with ⟨next, h⟩ | ⟨next, pid, saddr, _, _, hfree, h⟩
  · rw [h]
    exact moved_same fun _ => rfl
  · rw [h]
    generalize (s.newStack ssize).2 = m
    intro p
    by_cases hp : p = pid
    · right
      rw [hp]
      constructor
      · exact Or.inr (hw pid hfree)
      · right
        have hsusp : ((((s.setMem m).setNextpid next).spawn pid saddr (stackSize ssize)
            priority).proctab pid).prstate = .susp := by
          unfold Xinu.spawn
          show (upd s.proctab pid _ pid).prstate = _
          rw [upd_self]
        rw [hsusp]
        exact hst pid
    · left
      unfold Xinu.spawn
      show (upd s.proctab pid _ p).prstate = _
      rw [upd_of_ne hp]

theorem Plain.call_moved {c : Call} (hP : Plain w g s) (henv : TableCalls s (.call c)) :
    Moved (s.Wakes (.call c) (s.call c)) s.Parks s (s.call c) := by
  have hO := hP.good.ok
  have hd := hP.good.defers
  have hnull := henv.2.2
  cases c with
  | create ssize priority =>
      apply create_moved
      · exact fun p hp => wakes_of_state hp fun h => by cases h
      · exact fun p => parks_of_ne (fun h => by cases h) fun h => by cases h
  | resume pid =>
      exact (resume_serves hO fun h => wakes_of_state h fun h => by cases h).moved
  | suspend pid =>
      exact suspend_moved hO (parks_of_ne (fun h => by cases h) fun h => by cases h)
  | kill pid =>
      by_cases hkill : s.killable pid ∧ 2 < s.prcount
      · apply (kill_serves hO _).moved
        intro haccepts
        exact Or.inr (Or.inl ⟨_, if_pos ⟨hkill.1, hkill.2, haccepts⟩⟩)
      · apply moved_same
        intro p
        show ((s.kill pid).proctab p).prstate = _
        by_cases hk : s.killable pid
        · rw [kill_counted hk.1 hk.2, if_pos]
          · rfl
          · have hlast : ¬ 2 < s.prcount := fun h => hkill ⟨hk, h⟩
            omega
        · rw [kill_rejected]
          · rfl
          · unfold Xinu.killable at hk
            by_cases hb : s.isbadpid pid
            · exact Or.inl hb
            · exact Or.inr (not_not.mp fun hn => hk ⟨hb, hn⟩)
  | chprio pid newprio => exact (chprio_serves s pid newprio).moved
  | yield => exact (yield_serves hO).moved
  | semcreate count => exact (semcreate_serves s count).moved
  | wait i =>
      exact (wait_serves hO hnull (parks_of_ne (fun h => by cases h) fun h => by cases h)).moved
  | signal i => exact (signal_serves hO hP.wakes_sem).moved
  | signaln i count => exact (signaln_serves hO hd hP.wakes_sem).moved
  | semreset i count => exact (semreset_serves hO hd hP.wakes_sem).moved
  | semdelete i => exact (semdelete_serves hO hd hP.wakes_sem).moved
  | send pid msg =>
      apply (send_serves hO _).moved
      exact fun haccepts => Or.inr (Or.inl ⟨msg, if_pos haccepts⟩)
  | receive =>
      by_cases hmsg : (s.proctab s.currpid).prhasmsg = false
      · exact (receive_serves hO hnull (Or.inr ⟨rfl, hmsg⟩)).moved
      · have hcall : s.call .receive = s.receiveEnd := if_neg hmsg
        rw [hcall]
        exact receiveEnd_serves.moved
  | recvtime maxwait =>
      by_cases hmsg : (s.proctab s.currpid).prhasmsg = false
      · exact (recvtime_serves hO hnull (Or.inr ⟨rfl, hmsg⟩)).moved
      · show Moved _ _ s (s.recvtime maxwait)
        unfold Xinu.recvtime
        rw [if_neg hmsg]
        split
        · exact (ret_serves s _).moved
        · exact recvtimeEnd_serves.moved
  | recvclr => exact recvclr_serves.moved
  | sleepms delay =>
      exact (sleepms_serves hO hnull
        (parks_of_ne (fun h => by cases h) fun h => by cases h)).moved
  | sleep delay =>
      exact (sleep_serves hO hnull
        (parks_of_ne (fun h => by cases h) fun h => by cases h)).moved
  | clkhandler =>
      have hsame : ∀ p, (s.clkAdvance.proctab p).prstate = (s.proctab p).prstate :=
        (quiet_clkAdvance s).prstate
      exact (moved_same hsame).trans (clkhandler_serves hO hd hP.wakes_sleepq).moved
  | rwbcreate count => cases henv.1
  | rwbdelete rwb => cases henv.1
  | rwbreset rwb count => cases henv.1
  | rwbTryread rwb => cases henv.1
  | rwbTrywrite rwb => cases henv.1
  | signalrwb rwb => cases henv.1
  | setScheduler newval => cases henv.2.1

theorem Plain.step_moved (hP : Plain .plain g s) (henv : TableCalls s l)
    (hstep : s.step l = some s') : Moved (s.Wakes l s') s.Parks s s' := by
  rcases hP.step henv hstep with ⟨g', hmoves, hP'⟩
  unfold Xinu.step at hstep
  split at hstep
  · cases hstep
  · split at hstep
    · cases hstep
      exact hP.call_moved henv
    · rename_i f rest hs
      cases hstep
      have hO : Ok .plain (g.popped s.currpid f) s.pop := hP.good.ok.pop hs
      have hpop : Moved (s.Wakes .cont (s.pop.frame f)) s.Parks s s.pop :=
        moved_same fun _ => rfl
      have hno : f.tracked = true → ∃ victim, f = .killSent victim := hP.tracked hs
      cases f with
      | ret value => exact moved_same fun _ => rfl
      | suspend pid => exact moved_same fun _ => rfl
      | receive => exact hpop.trans receiveEnd_serves.moved
      | recvtime => exact hpop.trans recvtimeEnd_serves.moved
      | clkPreempt => exact hpop.trans (clkPreempt_serves hO).moved
      | killSent pid =>
          rcases hmoves with ⟨f', rest', hs', rfl⟩
          rw [hs] at hs'
          cases hs'
          have hdead : ¬ ((g.popped s.currpid (.killSent pid)).frameMove s
              (.killSent pid)).live pid := by
            rw [hP.frameMove_live hs]
            show ¬ upd g.live pid False pid
            rw [upd_self]
            exact id
          have hfree : ((s.pop.frame (.killSent pid)).proctab pid).prstate = .free :=
            not_not.mp fun h => hdead ((hP'.good.ok.inv.live pid).mpr h)
          have hflag : s.pop.rwbflags pid = 0 := by
            show s.rwbflags pid = 0
            rw [hP.good.ok.inv.flags]
            exact hP.calm.flags pid
          have hnull : pid ≠ NULLPROC := by
            have hframes := hP.good.ok.inv.frames s.currpid
            have hsound := hP.good.stacked.sound s.currpid
            rw [hs] at hframes
            have hg : g.frames s.currpid = .killSent pid :: rest.filter Frame.tracked :=
              hframes.symm
            rw [hg] at hsound
            exact hsound.1
          apply hpop.trans
          apply (killSent_serves hO hflag hnull _ _ (Or.inr (Or.inr hfree)) _).moved
          · intro hwait
            have hgood := hP.waits hwait
            simp only [isbadsem, not_or, Int.not_lt] at hgood
            show ¬ (s.proctab pid).prsem < -1
            omega
          · exact fun hlive => hP.valid pid ((hP.good.ok.inv.live pid).mpr hlive)
          · exact parks_of_ne (fun h => by cases h) fun h => by cases h
      | killSignaled pid =>
          rcases hno rfl with ⟨victim, h⟩
          cases h
      | rwbWriter thisid rwb =>
          rcases hno rfl with ⟨victim, h⟩
          cases h
      | rwbReader thisid rwb =>
          rcases hno rfl with ⟨victim, h⟩
          cases h
    · cases hstep

end

/-!
## What a step does to one message
-/

/-- What happens to the message of a process that lives after the step. -/
inductive WordStep (s : Xinu) (l : Label) (s' : Xinu) (p : Int) : Prop where
  | fresh (hfree : (s.proctab p).prstate = .free) (hword : s'.word p = none)
  | post (msg : Nat) (hlive : (s.proctab p).prstate ≠ .free)
      (hpost : s.posted l = some (p, msg)) (htake : ¬ s.takes l)
      (hnone : s.word p = none) (hword : s'.word p = some msg)
  | take (hcurr : p = s.currpid) (hpost : s.posted l = none) (htake : s.takes l)
      (hsome : s.word p = some (s'.retval p)) (hword : s'.word p = none)
  | same (hlive : (s.proctab p).prstate ≠ .free) (hpost : ∀ msg, s.posted l ≠ some (p, msg))
      (htake : p = s.currpid → ¬ s.takes l) (hword : s'.word p = s.word p)

/-- The invariant of runs with messages. -/
structure Mailed (g : View) (s : Xinu) : Prop where
  plain : Plain .plain g s
  /-- A process inside {lit}`receive` has nothing else to do in the kernel. -/
  alone : ∀ p, (s.proctab p).prstate ≠ .free → Frame.receive ∈ s.stack p →
    s.stack p = [.receive]
  /-- It waits until the message is there. -/
  served : ∀ p, (s.proctab p).prstate ≠ .free → Frame.receive ∈ s.stack p →
    (s.proctab p).prstate = .recv ∨ (s.proctab p).prhasmsg = true
  /-- Nobody waits for a message that is there. -/
  awake : ∀ p, (s.proctab p).prstate = .recv ∨ (s.proctab p).prstate = .rectim →
    (s.proctab p).prhasmsg = false

section

variable {w : Watch} {g : View} {s s' s₁ : Xinu} {l : Label} {p pid : Int} {msg : Nat}

theorem word_none (h : (s.proctab p).prhasmsg = false) : s.word p = none := by
  unfold Xinu.word
  rw [if_neg (by rw [h]; exact Bool.noConfusion)]

theorem word_some (h : (s.proctab p).prhasmsg = true) :
    s.word p = some ((s.proctab p).prmsg : Int) := by
  unfold Xinu.word
  rw [if_pos h]

theorem word_eq_none : s.word p = none ↔ (s.proctab p).prhasmsg = false := by
  constructor
  · intro h
    cases hm : (s.proctab p).prhasmsg with
    | false => rfl
    | true =>
        rw [word_some hm] at h
        cases h
  · exact word_none

theorem Aside.word {c : Int} (h : Aside c s s') (p : Int) : s'.word p = s.word p := by
  unfold Xinu.word
  rw [(h.self p).prhasmsg, (h.self p).prmsg]

theorem Kept.word (h : Kept s s') (p : Int) : s'.word p = s.word p :=
  (h.aside (c := p)).word p

theorem deliver_word (s : Xinu) (pid : Int) (msg : Nat) :
    (s.deliver pid msg).word pid = some (msg : Int) := by
  have hself : (s.deliver pid msg).proctab pid =
      { s.proctab pid with prmsg := msg, prhasmsg := true } := upd_self
  unfold Xinu.word
  rw [hself, if_pos rfl]

theorem deliver_word_of_ne (h : p ≠ pid) (msg : Nat) :
    (s.deliver pid msg).word p = s.word p := by
  have hne : (s.deliver pid msg).proctab p = s.proctab p := upd_of_ne h
  unfold Xinu.word
  rw [hne]

theorem taken_word (s : Xinu) : s.taken.word s.currpid = none := by
  apply word_none
  have hself : s.taken.proctab s.currpid = { s.proctab s.currpid with prhasmsg := false } :=
    upd_self
  rw [hself]

theorem taken_word_of_ne (h : p ≠ s.currpid) : s.taken.word p = s.word p := by
  have hne : s.taken.proctab p = s.proctab p := upd_of_ne h
  unfold Xinu.word
  rw [hne]

theorem taken_retval (s : Xinu) :
    s.taken.retval s.currpid = ((s.proctab s.currpid).prmsg : Int) := upd_self

/-- The process that takes its message. -/
theorem WordStep.ofTaken (hs : s₁.proctab = s.proctab) (hcp : s₁.currpid = s.currpid)
    (hlive : (s.proctab p).prstate ≠ .free) (hpost : s.posted l = none) (htake : s.takes l) :
    WordStep s l s₁.taken p := by
  have hword : s₁.word = s.word := by
    funext r
    unfold Xinu.word
    rw [hs]
  by_cases hp : p = s.currpid
  · apply WordStep.take hp hpost htake
    · rw [hp, ← hcp, taken_retval, hcp, hs]
      exact word_some htake.2
    · rw [hp, ← hcp]
      exact taken_word s₁
  · apply WordStep.same hlive
    · intro msg h
      rw [hpost] at h
      cases h
    · exact fun h => absurd h hp
    · rw [taken_word_of_ne (by rw [hcp]; exact hp), hword]

/-- A message is delivered and the rest is scheduling. -/
theorem WordStep.ofDeliver {c : Int} (hs : s₁.proctab = s.proctab) (haccepts : s.accepts pid)
    (hlive : (s.proctab p).prstate ≠ .free) (hpost : s.posted l = some (pid, msg))
    (htake : ¬ s.takes l) (h : Aside c (s₁.deliver pid msg) s') : WordStep s l s' p := by
  have hword : s₁.word = s.word := by
    funext r
    unfold Xinu.word
    rw [hs]
  by_cases hp : p = pid
  · apply WordStep.post msg hlive (hp ▸ hpost) htake
    · rw [hp]
      exact word_none haccepts.2
    · rw [h.word, hp]
      exact deliver_word s₁ pid msg
  · apply WordStep.same hlive
    · intro m hm
      rw [hpost] at hm
      cases hm
      exact hp rfl
    · exact fun _ => htake
    · rw [h.word, deliver_word_of_ne hp, hword]

theorem WordStep.ofSame (hlive : (s.proctab p).prstate ≠ .free) (hpost : s.posted l = none)
    (htake : ¬ s.takes l) (hword : s'.word p = s.word p) : WordStep s l s' p := by
  apply WordStep.same hlive _ (fun _ => htake) hword
  intro msg h
  rw [hpost] at h
  cases h

theorem Ok.curr_ne_free (hO : Ok w g s) : (s.proctab s.currpid).prstate ≠ .free := by
  rw [hO.curr]
  exact fun h => by cases h

theorem Mailed.receive_word (h : Mailed g s) {rest : List Frame}
    (hs : s.stack s.currpid = .receive :: rest) :
    (s.proctab s.currpid).prhasmsg = true := by
  have hcurr := h.plain.good.ok.curr
  have hmem : Frame.receive ∈ s.stack s.currpid := by
    rw [hs]
    exact List.mem_cons_self
  rcases h.served s.currpid h.plain.good.ok.curr_ne_free hmem with hr | hm
  · rw [hcurr] at hr
    cases hr
  · exact hm

theorem Mailed.wordStep (h : Mailed g s) (henv : TableCalls s l) (hstep : s.step l = some s')
    (hlive : (s'.proctab p).prstate ≠ .free) : WordStep s l s' p := by
  have heffect := h.plain.effect henv hstep
  by_cases hfree : (s.proctab p).prstate = .free
  · rcases h.plain.born henv hstep hfree hlive with ⟨n, prio, rfl⟩
    apply WordStep.fresh hfree
    cases heffect with
    | aside hu hcreate => exact absurd rfl (hcreate n prio)
    | createFails hu => exact absurd hfree hlive
    | @create _ _ next pid saddr hu hstk hpid hpidfree =>
        generalize (s.newStack n).2 = m at hlive ⊢
        unfold Xinu.spawn at hlive ⊢
        by_cases hp : p = pid
        · apply word_none
          rw [hp]
          show (upd s.proctab pid _ pid).prhasmsg = false
          rw [upd_self]
        · change (upd s.proctab pid _ p).prstate ≠ .free at hlive
          rw [upd_of_ne hp] at hlive
          exact absurd hfree hlive
    | takes hu htake => exact absurd htake.1 id
  · cases heffect with
    | aside hu hcreate hkill hpost htake haside =>
        exact .ofSame hfree hpost htake (haside.word p)
    | createFails hu => exact .ofSame hfree rfl (fun ht => ht.1) rfl
    | @create n prio next pid saddr hu hstk hpid hpidfree =>
        have htake : ¬ s.takes (.call (.create n prio)) := fun ht => ht.1
        apply WordStep.ofSame hfree rfl htake
        have hp : p ≠ pid := by
          intro hp
          rw [hp] at hfree
          exact hfree hpidfree
        generalize (s.newStack n).2 = m
        unfold Xinu.word Xinu.spawn
        show (if (upd s.proctab pid _ p).prhasmsg = true then
          some ((upd s.proctab pid _ p).prmsg : Int) else none) = _
        rw [upd_of_ne hp]
    | send hu haccepts haside =>
        exact .ofDeliver rfl haccepts hfree (if_pos haccepts) (fun ht => ht.1) haside
    | @killHalts pid hu hkill hlast =>
        have htake : ¬ s.takes (.call (.kill pid)) := fun ht => ht.1
        refine .ofSame hfree ?_ htake rfl
        exact if_neg fun hc => absurd hc.2.1 (by omega)
    | @kill pid hu hkill hmore hrejects =>
        have htake : ¬ s.takes (.call (.kill pid)) := fun ht => ht.1
        refine .ofSame hfree ?_ htake rfl
        exact if_neg fun hc => hrejects hc.2.2
    | @killSends pid _ hu hkill hmore haccepts haside =>
        exact .ofDeliver (by rfl) haccepts hfree
          (if_pos ⟨hkill, hmore, haccepts⟩) (fun ht => ht.1) haside
    | receiveWaits hu hmsg hkept =>
        apply WordStep.ofSame hfree rfl
        · intro ht
          rw [ht.2] at hmsg
          cases hmsg
        · exact hkept.word p
    | @takes c hu htake =>
        apply WordStep.ofTaken rfl rfl hfree _ htake
        cases c with
        | send pid msg => exact absurd htake.1 id
        | kill pid => exact absurd htake.1 id
        | _ => rfl
    | frame hs hidle htake haside => exact .ofSame hfree rfl htake (haside.word p)
    | @frameTakes f rest hs hf =>
        have htake : s.takes .cont := by
          rcases hf with rfl | ⟨rfl, hmsg⟩
          · constructor
            · unfold Xinu.fetches
              dsimp only
              rw [hs]
              trivial
            · exact h.receive_word hs
          · constructor
            · unfold Xinu.fetches
              dsimp only
              rw [hs]
              trivial
            · exact hmsg
        exact .ofTaken (by rfl) (by rfl) hfree (by rfl) htake
    | killSent hs haside =>
        apply WordStep.ofSame hfree rfl
        · intro ht
          have hfetches := ht.1
          unfold Xinu.fetches at hfetches
          dsimp only at hfetches
          rw [hs] at hfetches
          exact hfetches
        · exact haside.word p

/-!
## Waiting inside a receive
-/

theorem unsleep_proctab (s : Xinu) (pid : Int) : (s.unsleep pid).proctab = s.proctab := by
  unfold Xinu.unsleep
  split
  · rfl
  · split
    · rfl
    · dsimp only
      split
      · rfl
      · rfl

/-- A message wakes its receiver. -/
theorem send_wakes (haccepts : s.accepts pid)
    (hwaits : (s.proctab pid).prstate = .recv ∨ (s.proctab pid).prstate = .rectim) (msg : Nat) :
    (s.send pid msg).Alive pid := by
  have hmsg : ¬ (s.proctab pid).prhasmsg = true := by
    rw [haccepts.2]
    exact Bool.noConfusion
  have hgood : ¬ (s.deliver pid msg).isbadpid pid := by
    have hself : (s.deliver pid msg).proctab pid =
        { s.proctab pid with prmsg := msg, prhasmsg := true } := upd_self
    rw [Xinu.not_isbadpid_iff, hself]
    exact Xinu.not_isbadpid_iff.mp haccepts.1
  have hstate : ((s.deliver pid msg).proctab pid).prstate = (s.proctab pid).prstate := by
    have hself : (s.deliver pid msg).proctab pid =
        { s.proctab pid with prmsg := msg, prhasmsg := true } := upd_self
    rw [hself]
  unfold Xinu.send
  rw [if_neg haccepts.1, if_neg hmsg]
  show Xinu.Alive (if ((s.deliver pid msg).proctab pid).prstate = _ then
    ((s.deliver pid msg).push (.ret OK)).ready pid
    else if ((s.deliver pid msg).proctab pid).prstate = _ then
      (((s.deliver pid msg).push (.ret OK)).unsleep pid).ready pid
    else (s.deliver pid msg).ret OK) pid
  rw [hstate]
  generalize s.deliver pid msg = s₁ at hgood hstate ⊢
  have hready : ∀ s₂ : Xinu, s₂.proctab = s₁.proctab → (s₂.ready pid).Alive pid := by
    intro s₂ hs₂
    apply alive_ready _ (Or.inl rfl)
    rw [Xinu.not_isbadpid_iff, hs₂]
    exact Xinu.not_isbadpid_iff.mp hgood
  rcases hwaits with h | h
  · rw [if_pos h]
    exact hready _ rfl
  · rw [if_neg (by rw [h]; exact fun h => by cases h), if_pos h]
    exact hready _ (unsleep_proctab _ _)

/-- Who gets a message does not wait for one afterwards. -/
theorem Plain.posted_awake (hP : Plain .plain g s) (henv : TableCalls s l)
    (hstep : s.step l = some s') (hpost : s.posted l = some (p, msg)) :
    (s'.proctab p).prstate ≠ .recv ∧ (s'.proctab p).prstate ≠ .rectim := by
  have hsend : ∀ {w' : Watch} {g' : View} {s₁ : Xinu}, Ok w' g' s₁ → s₁.accepts p →
      ((s₁.send p msg).proctab p).prstate ≠ .recv ∧
        ((s₁.send p msg).proctab p).prstate ≠ .rectim := by
    intro w' g' s₁ hO haccepts
    have hnot : ∀ {s₂ : Xinu}, s₂.Alive p → (s₂.proctab p).prstate ≠ .recv ∧
        (s₂.proctab p).prstate ≠ .rectim := by
      intro s₂ halive
      rcases halive with h | h
      · rw [h]
        exact ⟨(fun h => by cases h), fun h => by cases h⟩
      · rw [h]
        exact ⟨(fun h => by cases h), fun h => by cases h⟩
    have hserves : Serves (fun _ => True) (fun _ _ => False) s₁ (s₁.send p msg) :=
      send_serves hO fun _ => trivial
    by_cases hwaits : (s₁.proctab p).prstate = .recv ∨ (s₁.proctab p).prstate = .rectim
    · exact hnot (send_wakes haccepts hwaits msg)
    · rcases hserves.moved p with hsame | ⟨_, halive | hstop⟩
      · rw [hsame]
        exact not_or.mp hwaits
      · exact hnot halive
      · exact absurd hstop id
  have hO := hP.good.ok
  unfold Xinu.step at hstep
  split at hstep
  · cases hstep
  · split at hstep
    · rename_i c hs
      cases hstep
      cases c with
      | send pid m =>
          unfold Xinu.posted at hpost
          dsimp only at hpost
          split at hpost
          · rename_i haccepts
            cases hpost
            exact hsend hO haccepts
          · cases hpost
      | kill pid =>
          unfold Xinu.posted at hpost
          dsimp only at hpost
          split at hpost
          · rename_i hkill
            cases hpost
            have hcall : s.call (.kill pid) = (s.counted pid).send (s.proctab pid).prparent
                pid.toNat := by
              show s.kill pid = _
              rw [kill_counted hkill.1.1 hkill.1.2, if_neg]
              · rfl
              · have hmore := hkill.2.1
                omega
            have hO₁ := hO.quiet (quiet_setPrcount s (s.prcount - 1))
            rw [hcall]
            exact hsend (hO₁.pushTracked (f := .killSent pid) rfl) hkill.2.2
          · cases hpost
      | _ => cases hpost
    · cases hstep
      cases hpost
    · cases hstep

/-- A process that finds no message waits for one. -/
theorem receive_parks (hO : Ok w g s) (hnull : s.currpid ≠ NULLPROC)
    (hmsg : (s.proctab s.currpid).prhasmsg = false) :
    (s.receive.proctab s.currpid).prstate = .recv := by
  have hq := quiet_recordCpuqdata (s.push .receive) s.currpid
  have hO₁ := (hO.push (f := .receive) rfl).quiet hq
  have hcp : ((s.push .receive).recordCpuqdata s.currpid).currpid = s.currpid := hq.currpid
  unfold Xinu.receive
  rw [if_pos hmsg]
  show ((Xinu.resched (((s.push .receive).recordCpuqdata s.currpid).setProc
    ((s.push .receive).recordCpuqdata s.currpid).currpid fun e =>
      { e with prstate := .recv })).proctab s.currpid).prstate = .recv
  rw [hcp]
  generalize (s.push .receive).recordCpuqdata s.currpid = s₁ at hO₁ hcp ⊢
  rw [← hcp] at hnull ⊢
  have hI := stopLive_inv (f := fun e => { e with prstate := .recv }) hO₁ hnull
    (by exact fun h => by cases h) rfl
  have hrecv : ((s₁.setProc s₁.currpid fun e => { e with prstate := .recv }).proctab
      s₁.currpid).prstate = .recv := by
    rw [setProc_self]
  have hmoved : Moved (fun _ => False) (fun _ _ => False) _ _ := (resched_serves hI).moved
  rw [hmoved.rest _ id, hrecv]
  unfold Xinu.Alive
  rw [hrecv]
  exact fun h => h.elim (fun h => by cases h) fun h => by cases h

theorem Aside.receive_mem {c : Int} (h : Aside c s s') (hmem : Frame.receive ∈ s'.stack p) :
    Frame.receive ∈ s.stack p := by
  by_cases hp : p = c
  · rw [hp] at hmem ⊢
    rcases h.frames with ⟨fs, hfs, hidle⟩
    rw [hfs] at hmem
    rcases List.mem_append.mp hmem with hf | hf
    · exact absurd (hidle _ hf) Bool.noConfusion
    · exact hf
  · rw [h.stack p hp] at hmem
    exact hmem

/-- The running process has no {lit}`receive` below the frame that it runs. -/
theorem Mailed.not_mem_tail (h : Mailed g s) {f : Frame} {rest : List Frame}
    (hs : s.stack s.currpid = f :: rest) : Frame.receive ∉ rest := by
  intro hmem
  have hin : Frame.receive ∈ s.stack s.currpid := by
    rw [hs]
    exact List.mem_cons_of_mem f hmem
  have halone := h.alone s.currpid h.plain.good.ok.curr_ne_free hin
  rw [hs] at halone
  cases halone
  cases hmem

/-- A process that is inside {lit}`receive` is not the one that leaves a frame. -/
theorem Mailed.popped (h : Mailed g s) {f : Frame} {rest : List Frame}
    (hs : s.stack s.currpid = f :: rest)
    (hmem : Frame.receive ∈ upd s.stack s.currpid (s.stack s.currpid).tail p) :
    p ≠ s.currpid := by
  intro hp
  rw [hp, upd_self, hs] at hmem
  exact h.not_mem_tail hs hmem

/-- Nor is it one that has just killed a process. -/
theorem receive_not_killing {pid : Int} (hu : s.inUser)
    (hmem : Frame.receive ∈ upd s.stack s.currpid (.killSent pid :: s.stack s.currpid) p) :
    p ≠ s.currpid := by
  intro hp
  rw [hp, upd_self, show s.stack s.currpid = [] from hu] at hmem
  rcases List.mem_singleton.mp hmem

/-- Who is inside {lit}`receive` was so before, or has just found no message. -/
theorem Mailed.stackStep (h : Mailed g s) (henv : TableCalls s l) (hstep : s.step l = some s')
    (hlive : (s'.proctab p).prstate ≠ .free) (hmem : Frame.receive ∈ s'.stack p) :
    (p ≠ s.currpid ∧ s'.stack p = s.stack p ∧ (s.proctab p).prstate ≠ .free) ∨
      (p = s.currpid ∧ s'.stack p = [.receive] ∧ l = .call .receive ∧ s' = s.receive ∧
        (s.proctab p).prhasmsg = false) := by
  have heffect := h.plain.effect henv hstep
  have hborn : (s.proctab p).prstate = .free → ∃ n prio, l = .call (.create n prio) :=
    fun hfree => h.plain.born henv hstep hfree hlive
  -- the stack of another process, if no process is created
  have hother : ∀ s₁ : Xinu, Aside s.currpid s₁ s' → s₁.stack p = s.stack p →
      (∀ n prio, l ≠ .call (.create n prio)) → p ≠ s.currpid →
      s'.stack p = s.stack p ∧ (s.proctab p).prstate ≠ .free := by
    intro s₁ haside hs₁ hcreate hp
    constructor
    · exact (haside.stack p hp).trans hs₁
    · intro hfree
      rcases hborn hfree with ⟨n, prio, hl⟩
      exact hcreate n prio hl
  have huser : s.inUser → Frame.receive ∉ s.stack s.currpid := by
    intro hu hmem
    unfold Xinu.inUser at hu
    rw [hu] at hmem
    cases hmem
  cases heffect with
  | @aside c hu hcreate hkill hpost htake haside =>
      have hp : p ≠ s.currpid := fun hp => huser hu (hp ▸ haside.receive_mem hmem)
      left
      exact ⟨hp, hother s haside rfl (fun n prio hl => hcreate n prio (Label.call.inj hl)) hp⟩
  | createFails hu =>
      have hp : p ≠ s.currpid := fun hp => huser hu (hp ▸ hmem)
      exact Or.inl ⟨hp, rfl, hlive⟩
  | @create n prio next pid saddr hu hstk hpid hpidfree =>
      generalize (s.newStack n).2 = m at hmem hlive ⊢
      unfold Xinu.spawn at hmem hlive ⊢
      change Frame.receive ∈ upd s.stack pid [] p at hmem
      change (upd s.proctab pid _ p).prstate ≠ .free at hlive
      have hne : p ≠ pid := by
        intro hp
        rw [hp, upd_self] at hmem
        cases hmem
      rw [upd_of_ne hne] at hmem hlive
      have hp : p ≠ s.currpid := fun hp => huser hu (hp ▸ hmem)
      left
      refine ⟨hp, ?_, hlive⟩
      exact upd_of_ne hne
  | @send pid msg hu haccepts haside =>
      have hp : p ≠ s.currpid := fun hp => huser hu (hp ▸ haside.receive_mem hmem)
      left
      exact ⟨hp, hother _ haside rfl (fun n prio hl => by cases hl) hp⟩
  | killHalts hu hkill hlast =>
      have hp : p ≠ s.currpid := fun hp => huser hu (hp ▸ hmem)
      exact Or.inl ⟨hp, rfl, hlive⟩
  | @kill pid hu hkill hmore hrejects =>
      have hp := receive_not_killing hu hmem
      exact Or.inl ⟨hp, upd_of_ne hp, hlive⟩
  | @killSends pid _ hu hkill hmore haccepts haside =>
      have hp := receive_not_killing hu (haside.receive_mem hmem)
      left
      exact ⟨hp, hother _ haside (upd_of_ne hp) (fun n prio hl => by cases hl) hp⟩
  | receiveWaits hu hmsg hkept =>
      have hstack : s.receive.stack = upd s.stack s.currpid (.receive :: s.stack s.currpid) :=
        hkept.stack
      rw [hstack] at hmem ⊢
      by_cases hp : p = s.currpid
      · right
        refine ⟨hp, ?_, rfl, rfl, hp ▸ hmsg⟩
        rw [hp, upd_self, show s.stack s.currpid = [] from hu]
      · left
        rw [upd_of_ne hp]
        refine ⟨hp, rfl, ?_⟩
        intro hfree
        rcases hborn hfree with ⟨n, prio, hl⟩
        cases hl
  | @takes c hu htake =>
      have hp : p ≠ s.currpid := fun hp => huser hu (hp ▸ hmem)
      left
      refine ⟨hp, rfl, ?_⟩
      intro hfree
      rcases hborn hfree with ⟨n, prio, hl⟩
      cases hl
      exact htake.1
  | @frame f rest hs hidle htake haside =>
      have hp := h.popped hs (haside.receive_mem hmem)
      left
      exact ⟨hp, hother _ haside (upd_of_ne hp) (fun n prio hl => by cases hl) hp⟩
  | @frameTakes f rest hs hf =>
      have hp := h.popped hs hmem
      left
      refine ⟨hp, upd_of_ne hp, ?_⟩
      intro hfree
      rcases hborn hfree with ⟨n, prio, hl⟩
      cases hl
  | @killSent pid rest hs haside =>
      have hp := h.popped hs (haside.receive_mem hmem)
      left
      exact ⟨hp, hother _ haside (upd_of_ne hp) (fun n prio hl => by cases hl) hp⟩

/-- A message that waits stays until it is taken. -/
theorem WordStep.stays (h : WordStep s l s' p) (hlive : (s.proctab p).prstate ≠ .free)
    (hmsg : (s.proctab p).prhasmsg = true) (hp : p ≠ s.currpid) :
    (s'.proctab p).prhasmsg = true := by
  have hsome := word_some hmsg
  have hword : s'.word p = s.word p ∨ ∃ msg : Nat, s'.word p = some (msg : Int) := by
    cases h with
    | fresh hfree => exact absurd hfree hlive
    | post msg _ _ _ _ hword => exact Or.inr ⟨msg, hword⟩
    | take hcurr => exact absurd hcurr hp
    | same _ _ _ hword => exact Or.inl hword
  cases hm : (s'.proctab p).prhasmsg with
  | true => rfl
  | false =>
      have hnone := word_none hm
      rcases hword with hword | ⟨msg, hword⟩
      · rw [hword, hsome] at hnone
        cases hnone
      · rw [hword] at hnone
        cases hnone

theorem Mailed.step (h : Mailed g s) (henv : TableCalls s l) (hstep : s.step l = some s') :
    ∃ g', Mailed g' s' := by
  rcases h.plain.step henv hstep with ⟨g', _, hP'⟩
  have hmoved := h.plain.step_moved henv hstep
  refine ⟨g', hP', ?_, ?_, ?_⟩
  · intro p hlive hmem
    rcases h.stackStep henv hstep hlive hmem with ⟨_, hstack, hlive₀⟩ | ⟨_, hstack, _⟩
    · rw [hstack] at hmem ⊢
      exact h.alone p hlive₀ hmem
    · exact hstack
  · intro p hlive hmem
    rcases h.stackStep henv hstep hlive hmem with ⟨hp, hstack, hlive₀⟩ | ⟨hp, _, hl, hs', hmsg⟩
    · rw [hstack] at hmem
      have hword := h.wordStep henv hstep hlive
      rcases h.served p hlive₀ hmem with hrecv | hmsg
      · by_cases hpost : ∃ msg, s.posted l = some (p, msg)
        · right
          rcases hpost with ⟨msg, hpost⟩
          cases hword with
          | fresh hfree => exact absurd hfree hlive₀
          | post m _ _ _ _ hword =>
              cases hm : (s'.proctab p).prhasmsg with
              | true => rfl
              | false =>
                  rw [word_none hm] at hword
                  cases hword
          | take hcurr => exact absurd hcurr hp
          | same _ hno => exact absurd hpost (hno msg)
        · left
          rw [← hrecv]
          apply hmoved.rest
          · unfold Xinu.Alive
            rw [hrecv]
            exact fun h => h.elim (fun h => by cases h) fun h => by cases h
          · intro hwakes
            rcases hwakes with hne | hposted | hfree
            · exact hne hrecv
            · exact hpost hposted
            · exact hlive hfree
      · exact Or.inr (hword.stays hlive₀ hmsg hp)
    · left
      subst hl
      rw [hp] at hmsg
      have hnull : s.currpid ≠ NULLPROC := fun hn => henv.2.2 hn hmsg
      rw [hs', hp]
      exact receive_parks h.plain.good.ok hnull hmsg
  · intro p hwaits
    have hlive : (s'.proctab p).prstate ≠ .free := by
      rcases hwaits with h | h
      · rw [h]
        exact fun h => by cases h
      · rw [h]
        exact fun h => by cases h
    have hdead : ¬ s'.Alive p := by
      unfold Xinu.Alive
      rcases hwaits with h | h
      · rw [h]
        exact fun h => h.elim (fun h => by cases h) fun h => by cases h
      · rw [h]
        exact fun h => h.elim (fun h => by cases h) fun h => by cases h
    have hempty : (s.proctab p).prhasmsg = false := by
      rcases hmoved.entered hdead with hsame | hparks | ⟨_, hmsg⟩
      · apply h.awake
        rw [← hsame]
        exact hwaits
      · rcases hwaits with h | h
        · exact absurd h hparks.1
        · exact absurd h hparks.2
      · exact hmsg
    have hword := h.wordStep henv hstep hlive
    apply word_eq_none.mp
    cases hword with
    | fresh _ hword => exact hword
    | post msg _ hpost =>
        have hnot := h.plain.posted_awake henv hstep hpost
        rcases hwaits with h | h
        · exact absurd h hnot.1
        · exact absurd h hnot.2
    | take _ _ _ _ hword => exact hword
    | same _ _ _ hword =>
        rw [hword]
        exact word_none hempty

end

/-!
## Exactly once and in order
-/

/-- What the observer notes for each process; a free entry is forgotten. -/
def noteMail (mail : Int → Mail Int) (s : Xinu) (l : Label) (s' : Xinu) : Int → Mail Int :=
  fun p =>
    if (s.proctab p).prstate = .free then .empty
    else
      match s.posted l with
      | some (pid, msg) => if p = pid then (mail p).post msg else mail p
      | none => if p = s.currpid ∧ s.takes l then (mail p).take (s'.retval p) else mail p

section

variable {g : View} {s s' : Xinu} {l : Label} {pid : Int} {msg : Nat} {mail : Int → Mail Int}

/-- The notes stay faithful. -/
theorem WordStep.faithful {p : Int} (h : WordStep s l s' p)
    (hfaithful : (s.proctab p).prstate ≠ .free → (mail p).Faithful (s.word p)) :
    (noteMail mail s l s' p).Faithful (s'.word p) := by
  unfold noteMail
  cases h with
  | fresh hfree hword =>
      rw [if_pos hfree, hword]
      exact Mail.faithful_empty
  | post msg hlive hpost htake hnone hword =>
      have hmail := hfaithful hlive
      rw [hnone] at hmail
      rw [if_neg hlive, hpost, hword]
      dsimp only
      rw [if_pos rfl]
      exact hmail.post
  | take hcurr hpost htake hsome hword =>
      by_cases hfree : (s.proctab p).prstate = .free
      · rw [if_pos hfree, hword]
        exact Mail.faithful_empty
      · have hmail := hfaithful hfree
        rw [hsome] at hmail
        rw [if_neg hfree, hpost, hword]
        dsimp only
        rw [if_pos ⟨hcurr, htake⟩]
        exact hmail.take
  | same hlive hpost htake hword =>
      have hmail := hfaithful hlive
      rw [if_neg hlive, hword]
      cases hposted : s.posted l with
      | none =>
          dsimp only
          rw [if_neg fun h => htake h.1 h.2]
          exact hmail
      | some pair =>
          rcases pair with ⟨pid, msg⟩
          dsimp only
          rw [if_neg]
          · exact hmail
          · intro hp
            exact hpost msg (hp ▸ hposted)

theorem Mailed.delivered (h : Mailed g s) (henv : TableCalls s l) (hstep : s.step l = some s')
    (hfetches : s.fetches l) {m : Int} (hword : s.word s.currpid = some m) :
    s'.retval s.currpid = m ∧ s'.word s.currpid = none := by
  have hmsg : (s.proctab s.currpid).prhasmsg = true := by
    cases hm : (s.proctab s.currpid).prhasmsg with
    | true => rfl
    | false =>
        rw [word_none hm] at hword
        cases hword
  have htake : s.takes l := ⟨hfetches, hmsg⟩
  have hlive : (s'.proctab s.currpid).prstate ≠ .free := by
    intro hfree
    cases h.plain.effect henv hstep with
    | aside _ _ _ _ hno => exact hno htake
    | createFails => exact hfetches
    | create => exact hfetches
    | send => exact hfetches
    | killHalts => exact hfetches
    | kill => exact hfetches
    | killSends => exact hfetches
    | receiveWaits _ hno =>
        rw [hmsg] at hno
        cases hno
    | takes =>
        have hself : s.taken.proctab s.currpid =
            { s.proctab s.currpid with prhasmsg := false } := upd_self
        rw [hself] at hfree
        exact h.plain.good.ok.curr_ne_free hfree
    | frame _ _ hno => exact hno htake
    | frameTakes =>
        have hself : s.pop.taken.proctab s.currpid =
            { s.proctab s.currpid with prhasmsg := false } := upd_self
        rw [hself] at hfree
        exact h.plain.good.ok.curr_ne_free hfree
    | killSent hs =>
        unfold Xinu.fetches at hfetches
        dsimp only at hfetches
        rw [hs] at hfetches
        exact hfetches
  cases h.wordStep henv hstep hlive with
  | fresh hfree => exact absurd hfree h.plain.good.ok.curr_ne_free
  | post _ _ _ hno => exact absurd htake hno
  | take _ _ _ hsome hnone =>
      rw [hword] at hsome
      exact ⟨(Option.some.inj hsome).symm, hnone⟩
  | same _ _ hno => exact absurd htake (hno rfl)

end

end BbbXinu
