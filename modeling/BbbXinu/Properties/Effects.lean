import BbbXinu.Invariant.CallKept
import BbbXinu.Properties.Plain

/-!
# What a step does to messages and processes

Without blockers each step schedules, delivers or takes a message, starts a
process, or is one half of a {lit}`kill`.
-/

namespace BbbXinu

open Runs

namespace Xinu

variable (s : Xinu)

/-- The process can be killed. -/
def killable (pid : Int) : Prop := ¬ s.isbadpid pid ∧ pid ≠ NULLPROC

instance (pid : Int) : Decidable (s.killable pid) := inferInstanceAs (Decidable (_ ∧ _))

/-- The message that the step delivers, with its receiver. -/
def posted : Label → Option (Int × Nat)
  | .call (.send pid msg) => if s.accepts pid then some (pid, msg) else none
  | .call (.kill pid) =>
      if s.killable pid ∧ 2 < s.prcount ∧ s.accepts (s.proctab pid).prparent then
        some ((s.proctab pid).prparent, pid.toNat)
      else none
  | _ => none

/-- The running process asks for its message in this step, if there is one. -/
def fetches : Label → Prop
  | .call .receive | .call .recvclr => True
  | .call (.recvtime maxwait) => 0 ≤ maxwait
  | .cont =>
      match s.stack s.currpid with
      | .receive :: _ | .recvtime :: _ => True
      | _ => False
  | _ => False

instance (l : Label) : Decidable (s.fetches l) :=
  match l with
  | .call c => by induction c using Call.casesOn <;> unfold fetches <;> infer_instance
  | .cont => by
      unfold fetches
      dsimp only
      split <;> infer_instance

/-- The running process gets its message in this step. -/
def takes (l : Label) : Prop := s.fetches l ∧ (s.proctab s.currpid).prhasmsg = true

instance (l : Label) : Decidable (s.takes l) := inferInstanceAs (Decidable (_ ∧ _))

/-- The state in which {lit}`kill` calls {lit}`send`. -/
def counted (pid : Int) : Xinu := (s.setPrcount (s.prcount - 1)).push (.killSent pid)

/-- The state in which the rest of {lit}`kill` schedules. -/
def unstacked (pid : Int) : Xinu :=
  s.pop.setMem (s.mem.freestk (s.proctab pid).prstkbase (s.proctab pid).prstklen)

/-- The message was taken. -/
def taken : Xinu := s.clearMsg.ret (s.proctab s.currpid).prmsg

end Xinu

/-- What one step does. -/
inductive Effect (s : Xinu) : Label → Xinu → Prop where
  | aside {c : Call} (hu : s.inUser) (hcreate : ∀ n prio, c ≠ .create n prio)
      (hkill : ∀ pid, c = .kill pid → ¬ s.killable pid)
      (hpost : s.posted (.call c) = none) (htake : ¬ s.takes (.call c))
      (h : Aside s.currpid s (s.call c)) : Effect s (.call c) (s.call c)
  | createFails {ssize : Nat} {priority next : Int} (hu : s.inUser) :
      Effect s (.call (.create ssize priority))
        (((s.setMem (s.newStack ssize).2).setNextpid next).ret SYSERR)
  | create {ssize : Nat} {priority next pid : Int} {saddr : Nat} (hu : s.inUser)
      (hstk : (s.newStack ssize).1 = some saddr) (hpid : ValidPid pid)
      (hfree : (s.proctab pid).prstate = .free) :
      Effect s (.call (.create ssize priority))
        (((s.setMem (s.newStack ssize).2).setNextpid next).spawn pid saddr (stackSize ssize)
          priority)
  | send {pid : Int} {msg : Nat} (hu : s.inUser) (haccepts : s.accepts pid)
      (h : Aside s.currpid (s.deliver pid msg) (s.send pid msg)) :
      Effect s (.call (.send pid msg)) (s.send pid msg)
  | killHalts {pid : Int} (hu : s.inUser) (hkill : s.killable pid) (hlast : s.prcount ≤ 2) :
      Effect s (.call (.kill pid)) { s.setPrcount (s.prcount - 1) with halted := true }
  | kill {pid : Int} (hu : s.inUser) (hkill : s.killable pid) (hmore : 2 < s.prcount)
      (hrejects : ¬ s.accepts (s.proctab pid).prparent) :
      Effect s (.call (.kill pid)) ((s.counted pid).ret SYSERR)
  | killSends {pid : Int} {s' : Xinu} (hu : s.inUser) (hkill : s.killable pid)
      (hmore : 2 < s.prcount) (haccepts : s.accepts (s.proctab pid).prparent)
      (h : Aside s.currpid ((s.counted pid).deliver (s.proctab pid).prparent pid.toNat) s') :
      Effect s (.call (.kill pid)) s'
  | receiveWaits (hu : s.inUser) (hmsg : (s.proctab s.currpid).prhasmsg = false)
      (h : Kept (s.push .receive) s.receive) : Effect s (.call .receive) s.receive
  | takes {c : Call} (hu : s.inUser) (htake : s.takes (.call c)) : Effect s (.call c) s.taken
  | frame {f : Frame} {rest : List Frame} (hs : s.stack s.currpid = f :: rest)
      (hidle : f.idle = true) (htake : ¬ s.takes .cont)
      (h : Aside s.currpid s.pop (s.pop.frame f)) : Effect s .cont (s.pop.frame f)
  | frameTakes {f : Frame} {rest : List Frame} (hs : s.stack s.currpid = f :: rest)
      (hf : f = .receive ∨ f = .recvtime ∧ (s.proctab s.currpid).prhasmsg = true) :
      Effect s .cont s.pop.taken
  | killSent {pid : Int} {rest : List Frame} (hs : s.stack s.currpid = .killSent pid :: rest)
      (h : Aside s.currpid (s.unstacked pid) (s.pop.killSent pid)) :
      Effect s .cont (s.pop.killSent pid)

section

variable {w : Watch} {g : View} {s s' : Xinu} {l : Label}

theorem posted_schedules {c : Call} (h : c.schedules = true) : s.posted (.call c) = none := by
  cases c with
  | send pid msg => cases h
  | kill pid => cases h
  | _ => rfl

theorem takes_schedules {c : Call} (h : c.schedules = true) : ¬ s.takes (.call c) := by
  intro ht
  cases c with
  | receive => cases h
  | recvtime maxwait => cases h
  | recvclr => cases h
  | _ => exact ht.1

theorem effect_kill (hu : s.inUser) (pid : Int) : Effect s (.call (.kill pid)) (s.kill pid) := by
  by_cases hkill : s.killable pid
  · rw [kill_counted hkill.1 hkill.2]
    split
    · rename_i hlast
      exact .killHalts hu hkill (by omega)
    · rename_i hmore
      have hmore : 2 < s.prcount := by omega
      by_cases haccepts : s.accepts (s.proctab pid).prparent
      · exact .killSends hu hkill hmore haccepts
          (send_accepted (s := s.counted pid) haccepts pid.toNat)
      · have hrejects : ¬ (s.counted pid).accepts (s.proctab pid).prparent := haccepts
        show Effect s _ ((s.counted pid).send (s.proctab pid).prparent pid.toNat)
        rw [send_rejected hrejects]
        exact .kill hu hkill hmore haccepts
  · have hbad : s.isbadpid pid ∨ pid = NULLPROC := by
      unfold Xinu.killable at hkill
      by_cases hb : s.isbadpid pid
      · exact Or.inl hb
      · exact Or.inr (not_not.mp fun hn => hkill ⟨hb, hn⟩)
    have hcall : s.call (.kill pid) = s.ret SYSERR := kill_rejected hbad
    apply Effect.aside hu
    · exact fun n prio h => by cases h
    · intro pid' h
      cases h
      exact hkill
    · exact if_neg fun h => hkill h.1
    · exact fun h => h.1
    · rw [hcall]
      exact aside_ret (by rfl) _

theorem effect_call {c : Call} (hu : s.inUser) (hcall : c.onBlocker = false)
    (hset : c.isSetScheduler = false) : Effect s (.call c) (s.call c) := by
  have hschedules : c.schedules = true → Effect s (.call c) (s.call c) := by
    intro h
    apply Effect.aside hu
    · intro n prio hc
      rw [hc] at h
      cases h
    · intro pid hc
      rw [hc] at h
      cases h
    · exact posted_schedules h
    · exact takes_schedules h
    · exact call_aside h
  have haside : (∀ n prio, c ≠ .create n prio) → (∀ pid, c ≠ .kill pid) →
      s.posted (.call c) = none → ¬ s.takes (.call c) → Aside s.currpid s (s.call c) →
      Effect s (.call c) (s.call c) := fun hcreate hkill hpost htake h =>
    .aside hu hcreate (fun pid hc => absurd hc (hkill pid)) hpost htake h
  cases c with
  | create ssize priority =>
      rcases create_cases s ssize priority with ⟨next, h⟩ | ⟨next, pid, saddr, hstk, hpid, hfree, h⟩
      · show Effect s _ (s.create ssize priority)
        rw [h]
        exact .createFails hu
      · show Effect s _ (s.create ssize priority)
        rw [h]
        exact .create hu hstk hpid hfree
  | kill pid => exact effect_kill hu pid
  | send pid msg =>
      by_cases h : s.accepts pid
      · exact .send hu h (send_accepted h msg)
      · apply haside
        · exact fun n prio hc => by cases hc
        · exact fun pid hc => by cases hc
        · exact if_neg h
        · exact fun ht => ht.1
        · show Aside s.currpid s (s.send pid msg)
          rw [send_rejected h]
          exact aside_ret (by rfl) _
  | receive =>
      cases hmsg : (s.proctab s.currpid).prhasmsg with
      | false => exact .receiveWaits hu hmsg (receive_waits hmsg)
      | true =>
          show Effect s _ s.receive
          rw [receive_takes hmsg]
          exact .takes hu ⟨trivial, hmsg⟩
  | recvtime maxwait =>
      by_cases htake : s.takes (.call (.recvtime maxwait))
      · show Effect s _ (s.recvtime maxwait)
        rw [recvtime_takes htake.2 htake.1]
        exact .takes hu htake
      · apply haside
        · exact fun n prio hc => by cases hc
        · exact fun pid hc => by cases hc
        · rfl
        · exact htake
        · show Aside s.currpid s (s.recvtime maxwait)
          cases hmsg : (s.proctab s.currpid).prhasmsg with
          | false => exact recvtime_waits hmsg maxwait
          | true =>
              have hneg : maxwait < 0 := Int.not_le.mp fun h => htake ⟨h, hmsg⟩
              rw [recvtime_refused hneg]
              exact aside_ret (by rfl) _
  | recvclr =>
      by_cases hmsg : (s.proctab s.currpid).prhasmsg = true
      · show Effect s _ s.recvclr
        rw [recvclr_takes hmsg]
        exact .takes hu ⟨trivial, hmsg⟩
      · apply haside
        · exact fun n prio hc => by cases hc
        · exact fun pid hc => by cases hc
        · rfl
        · exact fun ht => hmsg ht.2
        · show Aside s.currpid s s.recvclr
          rw [recvclr_none hmsg]
          exact aside_ret (by rfl) _
  | rwbcreate count => cases hcall
  | rwbdelete rwb => cases hcall
  | rwbreset rwb count => cases hcall
  | rwbTryread rwb => cases hcall
  | rwbTrywrite rwb => cases hcall
  | signalrwb rwb => cases hcall
  | setScheduler newval => cases hset
  | _ => exact hschedules rfl

theorem Plain.effect_frame {f : Frame} {rest : List Frame} (hP : Plain w g s)
    (hs : s.stack s.currpid = f :: rest) : Effect s .cont (s.pop.frame f) := by
  have hno : f.tracked = true → ∃ victim, f = .killSent victim := hP.tracked hs
  have hfetch : ∀ f', f = f' → f' ≠ .receive → f' ≠ .recvtime → ¬ s.takes .cont := by
    intro f' hf hreceive hrecvtime ht
    have hfetches := ht.1
    unfold Xinu.fetches at hfetches
    dsimp only at hfetches
    rw [hs, hf] at hfetches
    cases f' with
    | receive => exact hreceive rfl
    | recvtime => exact hrecvtime rfl
    | _ => exact hfetches
  cases f with
  | ret value =>
      exact .frame hs rfl (hfetch _ rfl (fun h => by cases h) fun h => by cases h)
        (aside_ret (by rfl) _)
  | suspend pid =>
      exact .frame hs rfl (hfetch _ rfl (fun h => by cases h) fun h => by cases h)
        (aside_ret (s := s.pop) (by rfl) _)
  | clkPreempt =>
      exact .frame hs rfl (hfetch _ rfl (fun h => by cases h) fun h => by cases h)
        (kept_clkPreempt _).aside
  | receive => exact .frameTakes hs (Or.inl rfl)
  | recvtime =>
      by_cases hmsg : (s.proctab s.currpid).prhasmsg = true
      · show Effect s .cont s.pop.recvtimeEnd
        rw [recvtimeEnd_takes (s := s.pop) hmsg]
        exact .frameTakes hs (Or.inr ⟨rfl, hmsg⟩)
      · apply Effect.frame hs rfl fun ht => hmsg ht.2
        show Aside s.currpid s.pop s.pop.recvtimeEnd
        rw [recvtimeEnd_timeout (s := s.pop) hmsg]
        exact aside_ret (by rfl) _
  | killSent pid =>
      have hflag : s.pop.rwbflags pid = 0 := by
        show s.rwbflags pid = 0
        rw [hP.good.ok.inv.flags]
        exact hP.calm.flags pid
      exact .killSent hs (killSent_aside hflag)
  | killSignaled pid =>
      rcases hno rfl with ⟨victim, h⟩
      cases h
  | rwbWriter thisid rwb =>
      rcases hno rfl with ⟨victim, h⟩
      cases h
  | rwbReader thisid rwb =>
      rcases hno rfl with ⟨victim, h⟩
      cases h

/-- Each step has one of the effects. -/
theorem Plain.effect (hP : Plain w g s) (henv : TableCalls s l) (hstep : s.step l = some s') :
    Effect s l s' := by
  unfold Xinu.step at hstep
  split at hstep
  · cases hstep
  · split at hstep
    · rename_i c hs
      cases hstep
      exact effect_call hs henv.1 henv.2.1
    · rename_i f rest hs
      cases hstep
      exact hP.effect_frame hs
    · cases hstep

end

end BbbXinu
