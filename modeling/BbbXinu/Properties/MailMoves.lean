import BbbXinu.Invariant.Mail
import BbbXinu.Properties.Messages
import BbbXinu.Shell.Children

/-!
# What each step does to messages

Without any assumption on the state, a step moves no message, delivers one, takes
one, or begins to wait for one.
-/

namespace BbbXinu

/-- The step is the end of a {lit}`kill` that frees the process. -/
def Xinu.frees (s : Xinu) : Label → Int → Prop
  | .cont, pid =>
      match s.stack s.currpid with
      | f :: _ => f.frees = some pid
      | [] => False
  | .call _, _ => False

instance (s : Xinu) (l : Label) (pid : Int) : Decidable (s.frees l pid) := by
  induction l using Label.casesOn with
  | call c => exact inferInstanceAs (Decidable False)
  | cont =>
      unfold Xinu.frees
      generalize s.stack s.currpid = frames
      induction frames using List.casesOn <;> dsimp only <;> infer_instance

/-- The running process takes its message in this step. -/
def Xinu.fetchesNow (s : Xinu) (l : Label) : Prop :=
  s.receives l = true ∨ l = .call .recvclr ∨ (∃ maxwait, l = .call (.recvtime maxwait)) ∨
    l = .cont ∧ Frame.recvtime ∈ s.stack s.currpid

/-- What a step does to the messages. -/
inductive MailMove (s : Xinu) (l : Label) (s' : Xinu) : Prop where
  | hushed (hpost : s.posted l = none) (hrecv : s.receives l = false)
      (hcreate : ∀ n prio, l = .call (.create n prio) → s'.retval s.currpid = SYSERR)
      (h : Hushed (s.frees l) s s')
  | post (pid : Int) (msg : Nat) (hpost : s.posted l = some (pid, msg))
      (h : Hushed (fun _ => False) (s.deliver pid msg) s')
      (hawake : (s'.proctab pid).prstate ≠ .recv)
  | create (n : Nat) (prio pid : Int) (hl : l = .call (.create n prio))
      (hfree : (s.proctab pid).prstate = .free)
      (hnew : (s'.proctab pid).prparent = s.currpid ∧ (s'.proctab pid).prhasmsg = false ∧
        (s'.proctab pid).prstate = .susp)
      (hrest : ∀ p, p ≠ pid → s'.proctab p = s.proctab p)
      (hframes : ∀ p, ∀ f ∈ s'.stack p, f ∈ s.stack p)
      (hretval : s'.retval s.currpid = pid)
  | waits (hl : l = .call .receive) (hmsg : (s.proctab s.currpid).prhasmsg = false)
      (h : Hushed (fun _ => False)
        ((s.push .receive).setProc s.currpid fun e => { e with prstate := .recv }) s')
  | naps (maxwait : Int) (hl : l = .call (.recvtime maxwait))
      (h : Hushed (fun _ => False) (s.push .recvtime) s')
  | takes (hl : s.fetchesNow l)
      (hproctab : s'.proctab = s.clearMsg.proctab)
      (hframes : ∀ p, ∀ f ∈ s'.stack p, f ∈ s.stack p)
      (hretval : s'.retval s.currpid = (s.proctab s.currpid).prmsg)

section

variable {s s' : Xinu} {l : Label} {p pid : Int}

/-!
## Messages
-/

/-- Who gets a message does not wait for one afterwards. -/
theorem send_awake (haccepts : s.accepts pid) (msg : Nat) :
    ((s.send pid msg).proctab pid).prstate ≠ .recv := by
  intro hrecv
  by_cases hwaits : (s.proctab pid).prstate = .recv
  · rcases send_wakes haccepts (Or.inl hwaits) msg with h | h
    · cases h.symm.trans hrecv
    · cases h.symm.trans hrecv
  · have hstate := (send_hushed (v := fun _ => False) haccepts msg).state pid
    rw [deliver_proctab] at hstate
    rcases hstate with h | h
    · exact hwaits (h.symm.trans hrecv)
    · exact h.1 hrecv

/-- The message of {lit}`send` or {lit}`kill`, sent from a state that differs from
the old one in no message. -/
theorem post_move {s₁ : Xinu} {msg : Nat} (hpost : s.posted l = some (pid, msg))
    (hproctab : s₁.proctab = s.proctab) (hs₁ : Hushed (fun _ => False) s s₁)
    (haccepts : s.accepts pid) : MailMove s l (s₁.send pid msg) := by
  have haccepts₁ : s₁.accepts pid := by
    unfold Xinu.accepts Xinu.isbadpid
    rw [hproctab]
    exact haccepts
  have hdeliver : (s₁.deliver pid msg).proctab = (s.deliver pid msg).proctab := by
    unfold Xinu.deliver Xinu.setProc
    rw [hproctab]
  refine .post pid msg hpost ?_ (send_awake haccepts₁ msg)
  exact (hushed_of_frames hdeliver hs₁.frames).trans (send_hushed haccepts₁ msg)

theorem takes_move {s₁ : Xinu} (hl : s.fetchesNow l) (hproctab : s₁.proctab = s.proctab)
    (hcp : s₁.currpid = s.currpid) (hs₁ : ∀ p, ∀ f ∈ s₁.stack p, f ∈ s.stack p) :
    MailMove s l (s₁.clearMsg.ret (s₁.proctab s₁.currpid).prmsg) := by
  refine .takes hl ?_ hs₁ ?_
  · show s₁.clearMsg.proctab = s.clearMsg.proctab
    unfold Xinu.clearMsg Xinu.setProc
    rw [hproctab, hcp]
  · rw [← hcp, ← hproctab]
    exact upd_self

theorem create_move (n : Nat) (prio : Int) :
    MailMove s (.call (.create n prio)) (s.create n prio) := by
  rcases create_cases s n prio with ⟨next, h⟩ | ⟨next, pid, saddr, -, -, hfree, h⟩
  · rw [h]
    refine .hushed rfl rfl (fun _ _ _ => upd_self) ?_
    exact hushed_of_proctab rfl rfl
  · rw [h]
    generalize (s.newStack n).2 = m
    unfold Xinu.spawn
    refine .create n prio pid rfl hfree ?_ ?_ ?_ upd_self
    · show (upd s.proctab pid _ pid).prparent = _ ∧ (upd s.proctab pid _ pid).prhasmsg = _ ∧
        (upd s.proctab pid _ pid).prstate = _
      rw [upd_self]
      exact ⟨rfl, rfl, rfl⟩
    · exact fun p hp => upd_of_ne hp
    · intro p f hf
      change f ∈ upd s.stack pid [] p at hf
      by_cases hp : p = pid
      · rw [hp, upd_self] at hf
        cases hf
      · rw [upd_of_ne hp] at hf
        exact hf

theorem kill_move (pid : Int) : MailMove s (.call (.kill pid)) (s.kill pid) := by
  by_cases hkill : s.killable pid
  · rw [kill_counted hkill.1 hkill.2]
    split
    · rename_i hlast
      refine .hushed ?_ rfl (fun _ _ h => by cases h) (hushed_of_proctab rfl rfl)
      exact if_neg fun hc => absurd hc.2.1 (by omega)
    · rename_i hmore
      have hcounted : ∀ v : Int → Prop, Hushed v s
          ((s.setPrcount (s.prcount - 1)).push (.killSent pid)) := by
        intro v
        have hcount : Hushed v s (s.setPrcount (s.prcount - 1)) := hushed_of_proctab rfl rfl
        exact hcount.trans (hushed_push _ rfl)
      by_cases haccepts : s.accepts (s.proctab pid).prparent
      · exact post_move (if_pos ⟨hkill, by omega, haccepts⟩) rfl (hcounted _) haccepts
      · rw [send_rejected (by exact haccepts)]
        refine .hushed ?_ rfl (fun _ _ h => by cases h) ?_
        · exact if_neg fun hc => haccepts hc.2.2
        · exact (hcounted _).trans (hushed_ret _ _)
  · have hbad : s.isbadpid pid ∨ pid = NULLPROC := by
      by_cases hbad : s.isbadpid pid
      · exact Or.inl hbad
      · exact Or.inr (not_not.mp fun hn => hkill ⟨hbad, hn⟩)
    rw [kill_rejected hbad]
    refine .hushed ?_ rfl (fun _ _ h => by cases h) (hushed_ret s _)
    exact if_neg fun hc => hkill hc.1

theorem send_move (pid : Int) (msg : Nat) :
    MailMove s (.call (.send pid msg)) (s.send pid msg) := by
  by_cases haccepts : s.accepts pid
  · exact post_move (if_pos haccepts) rfl (.refl s) haccepts
  · rw [send_rejected haccepts]
    exact .hushed (if_neg haccepts) rfl (fun _ _ h => by cases h) (hushed_ret s _)

theorem receive_move : MailMove s (.call .receive) s.receive := by
  by_cases hmsg : (s.proctab s.currpid).prhasmsg = true
  · rw [receive_takes hmsg]
    exact takes_move (Or.inl hmsg) rfl rfl fun _ _ hf => hf
  · have hnone := Bool.eq_false_iff.mpr hmsg
    exact .waits rfl hnone (receive_hushed hnone)

theorem recvclr_move : MailMove s (.call .recvclr) s.recvclr := by
  by_cases hmsg : (s.proctab s.currpid).prhasmsg = true
  · rw [recvclr_takes hmsg]
    exact takes_move (Or.inr (Or.inl rfl)) rfl rfl fun _ _ hf => hf
  · rw [recvclr_none hmsg]
    exact .hushed rfl rfl (fun _ _ h => by cases h) (hushed_ret s _)

theorem recvtime_move (maxwait : Int) :
    MailMove s (.call (.recvtime maxwait)) (s.recvtime maxwait) := by
  by_cases hmsg : (s.proctab s.currpid).prhasmsg = true
  · by_cases hpos : 0 ≤ maxwait
    · rw [recvtime_takes hmsg hpos]
      exact takes_move (Or.inr (Or.inr (Or.inl ⟨maxwait, rfl⟩))) rfl rfl fun _ _ hf => hf
    · rw [recvtime_refused (Int.not_le.mp hpos)]
      exact .hushed rfl rfl (fun _ _ h => by cases h) (hushed_ret s _)
  · rcases recvtime_hushed (v := fun _ => False) (Bool.eq_false_iff.mpr hmsg) maxwait with h | h
    · exact .hushed rfl rfl (fun _ _ h => by cases h) h
    · exact .naps maxwait rfl h

theorem call_move (c : Call) : MailMove s (.call c) (s.call c) := by
  cases c with
  | create n prio => exact create_move n prio
  | kill pid => exact kill_move pid
  | send pid msg => exact send_move pid msg
  | receive => exact receive_move
  | recvtime maxwait => exact recvtime_move maxwait
  | recvclr => exact recvclr_move
  | _ => exact .hushed rfl rfl (fun _ _ h => by cases h) (call_hushed rfl)

theorem frame_move {f : Frame} {rest : List Frame} (hs : s.stack s.currpid = f :: rest) :
    MailMove s .cont (s.pop.frame f) := by
  have hmem : f ∈ s.stack s.currpid := by
    rw [hs]
    exact List.mem_cons_self
  have hpop : ∀ p, ∀ f ∈ s.pop.stack p, f ∈ s.stack p := by
    intro p f' hf'
    change f' ∈ upd s.stack s.currpid (s.stack s.currpid).tail p at hf'
    by_cases hp : p = s.currpid
    · rw [hp] at hf' ⊢
      rw [upd_self] at hf'
      exact List.mem_of_mem_tail hf'
    · rw [upd_of_ne hp] at hf'
      exact hf'
  have hquiet : f.fetches = false → MailMove s .cont (s.pop.frame f) := by
    intro hf
    refine .hushed rfl ?_ (fun _ _ h => by cases h) ?_
    · unfold Xinu.receives
      dsimp only
      rw [hs]
      cases f <;> first | rfl | cases hf
    · have hframe := (hushed_pop s).trans (frame_hushed (s := s.pop) hf)
      unfold Xinu.frees
      dsimp only
      rw [hs]
      exact hframe
  cases f with
  | receive =>
      have hreceives : s.receives .cont = true := by
        unfold Xinu.receives
        dsimp only
        rw [hs]
      exact takes_move (Or.inl hreceives) rfl rfl hpop
  | recvtime =>
      by_cases hmsg : (s.pop.proctab s.pop.currpid).prhasmsg = true
      · show MailMove s .cont s.pop.recvtimeEnd
        rw [recvtimeEnd_takes hmsg]
        exact takes_move (Or.inr (Or.inr (Or.inr ⟨rfl, hmem⟩))) rfl rfl hpop
      · show MailMove s .cont s.pop.recvtimeEnd
        rw [recvtimeEnd_timeout hmsg]
        refine .hushed rfl ?_ (fun _ _ h => by cases h) ((hushed_pop s).trans (hushed_ret _ _))
        unfold Xinu.receives
        dsimp only
        rw [hs]
  | _ => exact hquiet rfl

theorem step_move (hstep : s.step l = some s') : MailMove s l s' := by
  unfold Xinu.step at hstep
  split at hstep
  · cases hstep
  · split at hstep
    · cases hstep
      exact call_move _
    · rename_i f rest hs
      cases hstep
      exact frame_move hs
    · cases hstep

/-!
## What a step leaves to a process
-/

theorem word_of_mail (h : SameMail (s.proctab p) (s'.proctab p)) : s'.word p = s.word p := by
  unfold Xinu.word
  rw [h.prhasmsg, h.prmsg]

/-- Nobody waits in {lit}`receive` for a message that is there. -/
def WaitsEmpty (s : Xinu) : Prop :=
  ∀ p, (s.proctab p).prstate = .recv → (s.proctab p).prhasmsg = false

theorem WaitsEmpty.hushed {v : Int → Prop} (h : WaitsEmpty s) (hh : Hushed v s s') :
    WaitsEmpty s' := by
  intro p hrecv
  rw [(hh.mail p).prhasmsg]
  rcases hh.state p with heq | hne
  · exact h p (heq.symm.trans hrecv)
  · exact absurd hrecv hne.1

theorem WaitsEmpty.move (h : WaitsEmpty s) (hm : MailMove s l s') : WaitsEmpty s' := by
  cases hm with
  | hushed hpost hrecv hcreate hh => exact h.hushed hh
  | post pid msg hpost hh hawake =>
      intro p hrecv
      have hp : p ≠ pid := by
        rintro rfl
        exact hawake hrecv
      have hmail := hh.mail p
      have hstate := hh.state p
      rw [deliver_proctab_of_ne s hp] at hmail hstate
      rw [hmail.prhasmsg]
      rcases hstate with heq | hne
      · exact h p (heq.symm.trans hrecv)
      · exact absurd hrecv hne.1
  | create n prio pid hl hfree hnew hrest hframes hretval =>
      intro p hrecv
      by_cases hp : p = pid
      · rw [hp]
        exact hnew.2.1
      · rw [hrest p hp] at hrecv ⊢
        exact h p hrecv
  | waits hl hmsg hh =>
      refine WaitsEmpty.hushed ?_ hh
      intro p hrecv
      by_cases hp : p = s.currpid
      · rw [hp, setProc_self]
        exact hmsg
      · rw [setProc_of_ne _ _ hp] at hrecv ⊢
        exact h p hrecv
  | naps maxwait hl hh => exact WaitsEmpty.hushed (s := s.push .recvtime) h hh
  | takes hl hproctab hframes hretval =>
      intro p hrecv
      rw [hproctab] at hrecv ⊢
      by_cases hp : p = s.currpid
      · rw [hp]
        exact congrArg Procent.prhasmsg (setProc_self s s.currpid _)
      · unfold Xinu.clearMsg at hrecv ⊢
        rw [setProc_of_ne _ _ hp] at hrecv ⊢
        exact h p hrecv

/-- An update of entries leaves the fields alone that it does not name. -/
theorem setProc_field {α : Type} (field : Procent → α) (s : Xinu) (pid : Int)
    {f : Procent → Procent} (h : ∀ e, field (f e) = field e) (p : Int) :
    field ((s.setProc pid f).proctab p) = field (s.proctab p) := by
  by_cases hp : p = pid
  · rw [hp, setProc_self, h]
  · rw [setProc_of_ne _ _ hp]

/-- A living process keeps its parent, and goes away only by a {lit}`kill`. -/
theorem MailMove.living (hm : MailMove s l s') (hlive : (s.proctab p).prstate ≠ .free) :
    (s'.proctab p).prparent = (s.proctab p).prparent ∧
      ((s'.proctab p).prstate = .free → s.frees l p) := by
  have hstay : ∀ {v : Int → Prop} {s₁ : Xinu}, Hushed v s₁ s' →
      (s₁.proctab p).prparent = (s.proctab p).prparent →
      (s₁.proctab p).prstate ≠ .free → (v p → s.frees l p) →
      (s'.proctab p).prparent = (s.proctab p).prparent ∧
        ((s'.proctab p).prstate = .free → s.frees l p) := by
    intro v s₁ hh hparent hlive₁ hfrees
    refine ⟨(hh.mail p).prparent.trans hparent, ?_⟩
    intro hfree
    rcases hh.state p with heq | hne
    · exact absurd (heq.symm.trans hfree) hlive₁
    · exact hfrees (hne.2 hfree)
  cases hm with
  | hushed hpost hrecv hcreate hh => exact hstay hh rfl hlive id
  | post pid msg hpost hh hawake =>
      have hparent := setProc_field Procent.prparent s pid
        (f := fun e => { e with prmsg := msg, prhasmsg := true }) (fun _ => rfl) p
      refine hstay hh hparent ?_ False.elim
      have hstate := setProc_field Procent.prstate s pid
        (f := fun e => { e with prmsg := msg, prhasmsg := true }) (fun _ => rfl) p
      exact fun hfree => hlive (hstate.symm.trans hfree)
  | create n prio pid hl hfree hnew hrest hframes hretval =>
      have hp : p ≠ pid := by
        rintro rfl
        exact hlive hfree
      rw [hrest p hp]
      exact ⟨rfl, fun hfree => absurd hfree hlive⟩
  | waits hl hmsg hh =>
      have hparent := setProc_field Procent.prparent (s.push .receive) s.currpid
        (f := fun e => { e with prstate := .recv }) (fun _ => rfl) p
      refine hstay hh hparent ?_ False.elim
      by_cases hp : p = s.currpid
      · rw [hp, setProc_self]
        exact fun h => by cases h
      · rw [setProc_of_ne _ _ hp]
        exact hlive
  | naps maxwait hl hh => exact hstay hh rfl hlive False.elim
  | takes hl hproctab hframes hretval =>
      rw [hproctab]
      have hparent := setProc_field Procent.prparent s s.currpid
        (f := fun e => { e with prhasmsg := false }) (fun _ => rfl) p
      have hstate := setProc_field Procent.prstate s s.currpid
        (f := fun e => { e with prhasmsg := false }) (fun _ => rfl) p
      exact ⟨hparent, fun hfree => absurd (hstate.symm.trans hfree) hlive⟩

theorem fetchesNow_posted (h : s.fetchesNow l) : s.posted l = none := by
  cases l with
  | cont => rfl
  | call c =>
      cases c with
      | send pid msg => rcases h with h | h | ⟨maxwait, h⟩ | ⟨h, -⟩ <;> cases h
      | kill pid => rcases h with h | h | ⟨maxwait, h⟩ | ⟨h, -⟩ <;> cases h
      | _ => rfl

/-- A message arrives, stays as it is, or is taken. -/
theorem MailMove.word (hm : MailMove s l s') (hlive : (s.proctab p).prstate ≠ .free) :
    (∃ msg, s.posted l = some (p, msg) ∧ s'.word p = some (msg : Int)) ∨
      ((∀ msg, s.posted l ≠ some (p, msg)) ∧ s'.word p = s.word p) ∨
      (p = s.currpid ∧ s.fetchesNow l ∧ s'.retval p = (s.proctab p).prmsg) := by
  have hsilent : s.posted l = none → ∀ msg, s.posted l ≠ some (p, msg) := by
    intro hnone msg h
    cases hnone.symm.trans h
  cases hm with
  | hushed hpost hrecv hcreate hh =>
      exact Or.inr (Or.inl ⟨hsilent hpost, word_of_mail (hh.mail p)⟩)
  | post pid msg hpost hh hawake =>
      have hword := word_of_mail (hh.mail p)
      by_cases hp : p = pid
      · rw [hp] at hword ⊢
        exact Or.inl ⟨msg, hpost, hword.trans (deliver_word s pid msg)⟩
      · right
        left
        refine ⟨?_, hword.trans (deliver_word_of_ne hp msg)⟩
        intro msg' h
        cases hpost.symm.trans h
        exact hp rfl
  | create n prio pid hl hfree hnew hrest hframes hretval =>
      right
      left
      have hp : p ≠ pid := by
        rintro rfl
        exact hlive hfree
      refine ⟨hsilent (by rw [hl]; rfl), ?_⟩
      unfold Xinu.word
      rw [hrest p hp]
  | waits hl hmsg hh =>
      right
      left
      refine ⟨hsilent (by rw [hl]; rfl), (word_of_mail (hh.mail p)).trans ?_⟩
      exact (kept_setState (s.push .receive) s.currpid .recv).word p
  | naps maxwait hl hh =>
      exact Or.inr (Or.inl ⟨hsilent (by rw [hl]; rfl), word_of_mail (hh.mail p)⟩)
  | takes hl hproctab hframes hretval =>
      by_cases hp : p = s.currpid
      · rw [hp]
        exact Or.inr (Or.inr ⟨rfl, hl, hretval⟩)
      · right
        left
        refine ⟨hsilent (fetchesNow_posted hl), ?_⟩
        unfold Xinu.word
        rw [hproctab]
        unfold Xinu.clearMsg
        rw [setProc_of_ne _ _ hp]

/-- A frame that takes a message is left by {lit}`receive` or {lit}`recvtime`. -/
theorem MailMove.frames (hm : MailMove s l s') {f : Frame} (hf : f ∈ s'.stack p)
    (hfetch : f.fetches = true) :
    f ∈ s.stack p ∨ p = s.currpid ∧ (f = .receive ∧ l = .call .receive ∨
      ∃ maxwait, l = .call (.recvtime maxwait)) := by
  cases hm with
  | hushed hpost hrecv hcreate hh => exact Or.inl (hh.frames p f hf hfetch)
  | post pid msg hpost hh hawake => exact Or.inl (hh.frames p f hf hfetch)
  | create n prio pid hl hfree hnew hrest hframes hretval => exact Or.inl (hframes p f hf)
  | waits hl hmsg hh =>
      have hmem : f ∈ (s.push .receive).stack p := hh.frames p f hf hfetch
      by_cases hp : p = s.currpid
      · rw [hp, push_stack] at hmem
        rcases List.mem_cons.mp hmem with heq | hold
        · exact Or.inr ⟨hp, Or.inl ⟨heq, hl⟩⟩
        · exact Or.inl (hp ▸ hold)
      · rw [push_stack_of_ne s hp] at hmem
        exact Or.inl hmem
  | naps maxwait hl hh =>
      have hmem : f ∈ (s.push .recvtime).stack p := hh.frames p f hf hfetch
      by_cases hp : p = s.currpid
      · exact Or.inr ⟨hp, Or.inr ⟨maxwait, hl⟩⟩
      · rw [push_stack_of_ne s hp] at hmem
        exact Or.inl hmem
  | takes hl hproctab hframes hretval => exact Or.inl (hframes p f hf)

theorem posted_accepts {msg : Nat} (h : s.posted l = some (p, msg)) : s.accepts p := by
  cases l with
  | cont => cases h
  | call c =>
      cases c with
      | send pid msg =>
          unfold Xinu.posted at h
          dsimp only at h
          split at h
          · rename_i haccepts
            cases h
            exact haccepts
          · cases h
      | kill pid =>
          unfold Xinu.posted at h
          dsimp only at h
          split at h
          · rename_i hkill
            cases h
            exact hkill.2.2
          · cases h
      | _ => cases h

end

end BbbXinu
