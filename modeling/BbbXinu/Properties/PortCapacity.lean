import BbbXinu.Properties.FailedCreations

/-!
# How many messages a port takes

{lit}`ptcreate` gives the capacity of a port to its sender semaphore, and keeps the low 16
bits of it in the table.  {lit}`ptreset` sets the semaphore from the table.
-/

namespace BbbXinu
namespace MessagePort

/-- As many sends return as are still free, and the next one waits. -/
structure Takes (p : MessagePort) (count : Int) : Prop where
  sent_le : p.sent ≤ count
  returns : p.sent < count → ∀ pid msg, p.phase pid = .outside →
    (p.ptsend pid msg).sent = p.sent + 1 ∧ (p.ptsend pid msg).phase pid = .outside
  waits : p.sent = count → ∀ pid msg, p.phase pid = .outside →
    (p.ptsend pid msg).phase pid = .sending p.ptseq msg

/-- In every run of the port, whenever it was reset and nothing has been received since, it
takes exactly as many messages as it was created for. -/
def RestoresCapacity (count : Int) (ssem rsem : Bool) : Prop :=
  ∀ p, Runs.Reach step (fun _ _ => True) (Init count ssem rsem) p →
    1 ≤ p.resets → p.ptstate = .alloc → p.received = 0 → p.Takes count

/-- What the sender semaphore was last set to. -/
def capacity (p : MessagePort) (count : Int) : Nat := if p.resets = 0 then count.toNat else uint16 count

/-- The processes in the line of the sender semaphore, or released from it, are in
{lit}`ptsend`.  While nothing has been received, those that were released have been so by a
reset, and the units that are missing have been used. -/
structure Sound (count : Int) (p : MessagePort) (T : Turnstile Int) : Prop where
  ssem : p.ptssem = some T
  ptmaxcnt : p.ptmaxcnt = uint16 count
  nodup : T.inside.Nodup
  inside : ∀ q ∈ T.inside, ∃ seq msg, p.phase q = .sending seq msg ∧ seq ≤ p.ptseq
  stale : p.received = 0 →
    ∀ q ∈ T.granted, ∀ seq msg, p.phase q = .sending seq msg → seq < p.ptseq
  units : p.received = 0 →
    T.queue.count + T.queue.waiters.length = p.capacity count - p.sent

section

variable {count : Int} {p p' : MessagePort} {T T' : Turnstile Int} {pid q : Int} {phase : PortPhase}
  {msg : Nat} {label : PortLabel} {ssem rsem : Bool}

/-!
## What changes nothing for senders
-/

theorem setPhase_self : (p.setPhase pid phase).phase pid = phase := upd_self

theorem setPhase_of_ne (h : q ≠ pid) : (p.setPhase pid phase).phase q = p.phase q :=
  upd_of_ne h

/-- A process that is not in the line goes on. -/
theorem Sound.setPhase (h : Sound count p T) (hpid : pid ∉ T.inside) :
    Sound count (p.setPhase pid phase) T where
  ssem := h.ssem
  ptmaxcnt := h.ptmaxcnt
  nodup := h.nodup
  inside := by
    intro q hq
    rw [setPhase_of_ne (ne_of_mem_of_not_mem hq hpid)]
    exact h.inside q hq
  stale := by
    intro hzero q hq seq msg hphase
    have hin : q ∈ T.inside := List.mem_append_right _ hq
    rw [setPhase_of_ne (ne_of_mem_of_not_mem hin hpid)] at hphase
    exact h.stale hzero q hq seq msg hphase
  units := h.units

theorem Sound.not_inside (h : Sound count p T) (pid : Int)
    (hphase : ∀ seq msg, p.phase pid ≠ .sending seq msg) : pid ∉ T.inside := by
  intro hin
  obtain ⟨seq, msg, heq, _⟩ := h.inside pid hin
  exact hphase seq msg heq

theorem Sound.setRsem (h : Sound count p T) (ptrsem : Option (Turnstile Int)) :
    Sound count { p with ptrsem := ptrsem } T :=
  ⟨h.ssem, h.ptmaxcnt, h.nodup, h.inside, h.stale, h.units⟩

theorem Sound.setState (h : Sound count p T) (ptstate : PtState) :
    Sound count { p with ptstate := ptstate } T :=
  ⟨h.ssem, h.ptmaxcnt, h.nodup, h.inside, h.stale, h.units⟩

/-!
## Senders
-/

theorem inside_enter_closed (h : ¬T.Open) : (T.enter pid).inside.Perm (pid :: T.inside) := by
  change ((T.queue.wait pid).waiters ++ T.granted).Perm (pid :: (T.queue.waiters ++ T.granted))
  rw [Turnstile.waiters_closed h, List.append_assoc]
  exact List.perm_middle

/-- A sender that waits joins the line. -/
theorem Sound.wait (h : Sound count p T) (hclosed : ¬T.Open) (hpid : pid ∉ T.inside) :
    Sound count ({ p with ptssem := some (T.enter pid) }.setPhase pid (.sending p.ptseq msg))
      (T.enter pid) where
  ssem := rfl
  ptmaxcnt := h.ptmaxcnt
  nodup := by
    apply (inside_enter_closed hclosed).nodup_iff.mpr
    exact List.nodup_cons.mpr ⟨hpid, h.nodup⟩
  inside := by
    intro q hq
    rcases List.mem_cons.mp ((inside_enter_closed hclosed).mem_iff.mp hq) with rfl | hq
    · exact ⟨p.ptseq, msg, setPhase_self, Int.le_refl _⟩
    · rw [setPhase_of_ne (ne_of_mem_of_not_mem hq hpid)]
      exact h.inside q hq
  stale := by
    intro hzero q hq seq msg hphase
    have hin : q ∈ T.inside := List.mem_append_right _ hq
    rw [setPhase_of_ne (ne_of_mem_of_not_mem hin hpid)] at hphase
    exact h.stale hzero q hq seq msg hphase
  units := by
    intro hzero
    have hunits := h.units hzero
    change T.queue.count - 1 + ((T.queue.wait pid).waiters.length : Int) = _
    rw [Turnstile.waiters_closed hclosed, List.length_append, List.length_singleton]
    change _ = (p.capacity count : Int) - p.sent
    omega

/-- A sender that need not wait uses a unit. -/
theorem Sound.pass (h : Sound count p T) (hopen : T.Open) :
    Sound count ({ p with ptssem := some (T.enter pid) }.deposit msg) (T.enter pid) where
  ssem := rfl
  ptmaxcnt := h.ptmaxcnt
  nodup := by
    rw [Turnstile.inside_enter_open hopen]
    exact h.nodup
  inside := by
    rw [Turnstile.inside_enter_open hopen]
    exact h.inside
  stale := h.stale
  units := by
    intro hzero
    have hunits := h.units hzero
    change T.queue.count - 1 + ((T.queue.wait pid).waiters.length : Int) =
      (p.capacity count : Int) - ((p.sent + 1 : Nat) : Int)
    rw [Turnstile.waiters_open hopen]
    omega

theorem Sound.ptsend (h : Sound count p T) (hphase : p.phase pid = .outside) :
    ∃ T', Sound count (p.ptsend pid msg) T' := by
  unfold MessagePort.ptsend
  rw [h.ssem]
  split
  · exact ⟨T, h⟩
  · dsimp only
    split
    · exact ⟨_, h.pass ‹_›⟩
    · exact ⟨_, h.wait ‹_› (h.not_inside pid (by simp [hphase]))⟩

/-- A sender that was released leaves the line. -/
theorem Sound.resume (h : Sound count p T) (hpid : pid ∈ T.granted) :
    Sound count ({ p with ptssem := some (T.resume pid) }.setPhase pid .outside)
      (T.resume pid) where
  ssem := rfl
  ptmaxcnt := h.ptmaxcnt
  nodup := by
    exact List.Nodup.sublist ((List.Sublist.refl _).append List.erase_sublist) h.nodup
  inside := by
    have hparts := List.nodup_append.mp h.nodup
    intro q hq
    have hne : q ≠ pid := by
      intro heq
      rw [heq] at hq
      rcases List.mem_append.mp hq with hwait | hgone
      · exact hparts.2.2 pid hwait pid hpid rfl
      · exact (List.Nodup.mem_erase_iff hparts.2.1).mp hgone |>.1 rfl
    rw [setPhase_of_ne hne]
    apply h.inside q
    rcases List.mem_append.mp hq with hwait | hgone
    · exact List.mem_append_left _ hwait
    · exact List.mem_append_right _ (List.mem_of_mem_erase hgone)
  stale := by
    intro hzero q hq seq msg hphase
    by_cases heq : q = pid
    · rw [heq, setPhase_self] at hphase
      cases hphase
    · rw [setPhase_of_ne heq] at hphase
      exact h.stale hzero q (List.mem_of_mem_erase hq) seq msg hphase
  units := h.units

/-- A message from a sender that was released by a receiver. -/
theorem Sound.deposit (h : Sound count p T) (hpos : p.received ≠ 0) :
    Sound count (p.deposit msg) T :=
  ⟨h.ssem, h.ptmaxcnt, h.nodup, h.inside, fun hzero => absurd hzero hpos,
    fun hzero => absurd hzero hpos⟩

/-- A sender that was released by a reset finds another sequence number. -/
theorem Sound.ptsendResume {seq : Int} (h : Sound count p T) (hpid : pid ∈ T.granted)
    (hphase : p.phase pid = .sending seq msg) :
    Sound count (p.ptsendResume pid T seq msg) (T.resume pid) := by
  unfold MessagePort.ptsendResume
  dsimp only
  split
  · exact h.resume hpid
  · rename_i hsame
    apply (h.resume hpid).deposit
    intro hzero
    have hlt := h.stale hzero pid hpid seq msg hphase
    obtain ⟨_, hseq⟩ := not_or.mp hsame
    have heq : p.ptseq = seq := not_not.mp hseq
    omega

/-!
## Receivers and resets
-/

/-- A receiver gives a unit back. -/
theorem Sound.take (h : Sound count p T) : Sound count p.take (T.signal 1) where
  ssem := by
    change p.ptssem.map _ = _
    rw [h.ssem]
    rfl
  ptmaxcnt := h.ptmaxcnt
  nodup := Turnstile.inside_signal.nodup_iff.mpr h.nodup
  inside := fun q hq => h.inside q (Turnstile.inside_signal.mem_iff.mp hq)
  stale := fun hzero => absurd hzero (Nat.succ_ne_zero _)
  units := fun hzero => absurd hzero (Nat.succ_ne_zero _)

theorem Sound.ptrecv (h : Sound count p T) (hphase : p.phase pid = .outside) :
    ∃ T', Sound count (p.ptrecv pid) T' := by
  unfold MessagePort.ptrecv
  split
  · exact ⟨T, h⟩
  · split
    · exact ⟨T, h⟩
    · dsimp only
      split
      · exact ⟨_, (h.setRsem _).take⟩
      · exact ⟨T, (h.setRsem _).setPhase (h.not_inside pid (by simp [hphase]))⟩

theorem Sound.ptrecvResume {seq : Int} {R : Turnstile Int} (h : Sound count p T)
    (hphase : p.phase pid = .receiving seq) :
    ∃ T', Sound count (p.ptrecvResume pid R seq) T' := by
  unfold MessagePort.ptrecvResume
  have hgone : Sound count
      (({ p with ptrsem := some (R.resume pid) } : MessagePort).setPhase pid .outside) T :=
    (h.setRsem (some (R.resume pid))).setPhase (h.not_inside pid (by simp [hphase]))
  dsimp only
  split
  · exact ⟨T, hgone⟩
  · exact ⟨_, hgone.take⟩

theorem inside_reset (n : Nat) : (T.reset n).inside.Perm T.inside := by
  change (T.granted ++ T.queue.waiters).Perm (T.queue.waiters ++ T.granted)
  exact List.perm_append_comm

/-- All senders are released, with a sequence number that is no longer that of the port. -/
theorem Sound.ptreset (h : Sound count p T) (hphase : p.phase pid = .outside) :
    ∃ T', Sound count (p.ptreset pid) T' := by
  unfold MessagePort.ptreset
  split
  · exact ⟨T, h⟩
  · refine ⟨T.reset p.ptmaxcnt, Sound.setPhase ?_ ?_⟩
    · constructor
      · change p.ptssem.map _ = _
        rw [h.ssem]
        rfl
      · exact h.ptmaxcnt
      · exact (inside_reset _).nodup_iff.mpr h.nodup
      · intro q hq
        obtain ⟨seq, msg, hseq, hle⟩ := h.inside q ((inside_reset _).mem_iff.mp hq)
        refine ⟨seq, msg, hseq, ?_⟩
        change seq ≤ p.ptseq + 1
        omega
      · intro _ q hq seq msg hseq
        have hin : q ∈ T.inside := (inside_reset _).mem_iff.mp (List.mem_append_right _ hq)
        obtain ⟨seq', msg', hseq', hle⟩ := h.inside q hin
        cases hseq'.symm.trans hseq
        change seq < p.ptseq + 1
        omega
      · intro _
        have hcapacity : ({ p with resets := p.resets + 1 } : MessagePort).capacity count =
            uint16 count := if_neg (Nat.succ_ne_zero _)
        change (p.ptmaxcnt : Int) + (0 : Nat) =
          (({ p with resets := p.resets + 1 } : MessagePort).capacity count : Int) - (0 : Nat)
        rw [hcapacity, h.ptmaxcnt]
        omega
    · intro hin
      exact h.not_inside pid (by simp [hphase]) ((inside_reset _).mem_iff.mp hin)

/-!
## Runs
-/

theorem Sound.create (ptseq : Int) :
    Sound count (create count true rsem ptseq) (Turnstile.idle count.toNat) where
  ssem := rfl
  ptmaxcnt := rfl
  nodup := List.nodup_nil
  inside := fun _ hq => absurd hq List.not_mem_nil
  stale := fun _ _ hq => absurd hq List.not_mem_nil
  units := by
    intro _
    change (count.toNat : Int) + (0 : Nat) = (count.toNat : Int) - (0 : Nat)
    omega

theorem Sound.step (h : Sound count p T) (hs : p.step label = some p') :
    ∃ T', Sound count p' T' := by
  cases label with
  | send pid msg =>
      obtain ⟨hphase, hs⟩ := Option.ite_none_right_eq_some.mp hs
      cases hs
      exact h.ptsend hphase
  | recv pid =>
      obtain ⟨hphase, hs⟩ := Option.ite_none_right_eq_some.mp hs
      cases hs
      exact h.ptrecv hphase
  | resume pid =>
      cases hphase : p.phase pid with
      | sending seq msg =>
          simp only [MessagePort.step, hphase, h.ssem] at hs
          obtain ⟨hmem, hs⟩ := Option.ite_none_right_eq_some.mp hs
          cases hs
          exact ⟨_, h.ptsendResume hmem hphase⟩
      | receiving seq =>
          cases hrsem : p.ptrsem with
          | none => simp [MessagePort.step, hphase, hrsem] at hs
          | some R =>
              simp only [MessagePort.step, hphase, hrsem] at hs
              obtain ⟨_, hs⟩ := Option.ite_none_right_eq_some.mp hs
              cases hs
              exact h.ptrecvResume hphase
      | _ => simp [MessagePort.step, hphase] at hs
  | reset pid =>
      obtain ⟨hphase, hs⟩ := Option.ite_none_right_eq_some.mp hs
      cases hs
      exact h.ptreset hphase
  | clear pid =>
      obtain ⟨hphase, hs⟩ := Option.ite_none_right_eq_some.mp hs
      cases hs
      exact ⟨T, (h.setRsem _).setPhase (h.not_inside pid (by simp [hphase]))⟩
  | leave pid =>
      obtain ⟨hphase, hs⟩ := Option.ite_none_right_eq_some.mp hs
      cases hs
      exact ⟨T, (h.setState _).setPhase (h.not_inside pid (by simp [hphase]))⟩

/-- A run of a port that got its sender semaphore. -/
theorem sound_of_reach
    (h : Runs.Reach MessagePort.step (fun _ _ => True) (Init count true rsem) p) :
    ∃ T, Sound count p T := by
  apply h.invariant (I := fun p => ∃ T, Sound count p T)
  · intro p hinit
    obtain ⟨ptseq, rfl⟩ := hinit
    exact ⟨_, Sound.create ptseq⟩
  · intro p label p' _ hI _ hs
    obtain ⟨T, hT⟩ := hI
    exact hT.step hs

/-- What a sound port takes while nothing is received. -/
theorem Sound.takes (h : Sound count p T) (hstate : p.ptstate = .alloc)
    (hzero : p.received = 0) : p.Takes (p.capacity count) := by
  have hunits := h.units hzero
  have hsized := T.queue.sized
  have hsend : ∀ pid msg, p.ptsend pid msg =
      if T.Open then { p with ptssem := some (T.enter pid) }.deposit msg
      else { p with ptssem := some (T.enter pid) }.setPhase pid (.sending p.ptseq msg) := by
    intro pid msg
    unfold MessagePort.ptsend
    rw [if_neg (not_not.mpr hstate), h.ssem]
  constructor
  · omega
  · intro hlt pid msg hphase
    have hopen : T.Open := by
      unfold Turnstile.Open
      omega
    rw [hsend, if_pos hopen]
    exact ⟨rfl, hphase⟩
  · intro heq pid msg _
    have hclosed : ¬T.Open := by
      unfold Turnstile.Open
      omega
    rw [hsend, if_neg hclosed]
    exact setPhase_self

/-!
## The exact condition
-/

theorem uint16_eq (h0 : 0 ≤ count) (hle : count ≤ 65535) : (uint16 count : Int) = count := by
  unfold uint16
  omega

theorem uint16_le (count : Int) : (uint16 count : Int) ≤ 65535 := by
  unfold uint16
  omega

theorem restores_of (h0 : 0 ≤ count) (hle : count ≤ 65535) :
    RestoresCapacity count true rsem := by
  intro p hreach hresets hstate hzero
  obtain ⟨T, hT⟩ := sound_of_reach hreach
  have hcapacity : p.capacity count = uint16 count := if_neg (by omega)
  have htakes := hT.takes hstate hzero
  rw [hcapacity, uint16_eq h0 hle] at htakes
  exact htakes

/-- A port that was reset once, by the process 0. -/
theorem exists_reset (count : Int) (ssem rsem : Bool) :
    ∃ p, Runs.Reach MessagePort.step (fun _ _ => True) (Init count ssem rsem) p ∧ 1 ≤ p.resets ∧
      p.ptstate = .alloc ∧ p.received = 0 ∧ p.sent = 0 ∧ p.phase 0 = .outside ∧
      (ssem = false → p.ptssem = none) := by
  have h₁ : Runs.Reach MessagePort.step (fun _ _ => True) (Init count ssem rsem)
      ((create count ssem rsem 0).ptreset 0) :=
    Runs.Reach.step (Runs.Reach.init ⟨0, rfl⟩) trivial (l := .reset 0) rfl
  have h₂ := Runs.Reach.step h₁ trivial (l := .clear 0) rfl
  have h₃ := Runs.Reach.step h₂ trivial (l := .leave 0) rfl
  refine ⟨_, h₃, Nat.le_refl 1, rfl, rfl, rfl, rfl, ?_⟩
  rintro rfl
  rfl

/-- Without a sender semaphore nothing is sent and nobody waits. -/
theorem ssem_of_restores (h0 : 0 ≤ count) (h : RestoresCapacity count ssem rsem) :
    ssem = true := by
  by_contra hfalse
  have hno : ssem = false := by simpa using hfalse
  obtain ⟨p, hreach, hresets, hstate, hzero, hsent, hphase, hnone⟩ :=
    exists_reset count ssem rsem
  have htakes := h p hreach hresets hstate hzero
  have hsend : p.ptsend 0 0 = p := by
    unfold MessagePort.ptsend
    rw [if_neg (not_not.mpr hstate), hnone hno]
  by_cases hpos : 0 < count
  · have hreturns := (htakes.returns (by omega) 0 0 hphase).1
    rw [hsend] at hreturns
    omega
  · have hwaits := htakes.waits (by omega) 0 0 hphase
    rw [hsend, hphase] at hwaits
    cases hwaits

/-- A port that takes all its messages can be filled. -/
theorem exists_sent (h : RestoresCapacity count ssem rsem) (n : Nat) (hn : n ≤ count) :
    ∃ p, Runs.Reach MessagePort.step (fun _ _ => True) (Init count ssem rsem) p ∧ 1 ≤ p.resets ∧
      p.ptstate = .alloc ∧ p.received = 0 ∧ p.sent = n ∧ p.phase 0 = .outside := by
  induction n with
  | zero =>
      obtain ⟨p, hreach, hresets, hstate, hzero, hsent, hphase, _⟩ :=
        exists_reset count ssem rsem
      exact ⟨p, hreach, hresets, hstate, hzero, hsent, hphase⟩
  | succ n ih =>
      obtain ⟨p, hreach, hresets, hstate, hzero, hsent, hphase⟩ := ih (by omega)
      have hreturns := (h p hreach hresets hstate hzero).returns (by omega) 0 0 hphase
      have hkept : (p.ptsend 0 0).resets = p.resets ∧ (p.ptsend 0 0).ptstate = p.ptstate ∧
          (p.ptsend 0 0).received = p.received := by
        unfold MessagePort.ptsend
        split
        · exact ⟨rfl, rfl, rfl⟩
        · split
          · exact ⟨rfl, rfl, rfl⟩
          · dsimp only
            split <;> exact ⟨rfl, rfl, rfl⟩
      obtain ⟨hkresets, hkstate, hkzero⟩ := hkept
      refine ⟨p.ptsend 0 0, Runs.Reach.step hreach trivial (l := .send 0 0) (if_pos hphase), ?_,
        ?_, ?_, ?_, hreturns.2⟩
      · omega
      · rw [hkstate, hstate]
      · omega
      · omega

/-- What does not fit into 16 bits is lost with the reset. -/
theorem le_of_restores (h0 : 0 ≤ count) (h : RestoresCapacity count true rsem) :
    count ≤ 65535 := by
  obtain ⟨p, hreach, hresets, hstate, hzero, hsent, _⟩ := exists_sent h count.toNat (by omega)
  obtain ⟨T, hT⟩ := sound_of_reach hreach
  have hcapacity : p.capacity count = uint16 count := if_neg (by omega)
  have hle := (hT.takes hstate hzero).sent_le
  rw [hcapacity] at hle
  have hmax := uint16_le count
  omega

end

/-- After every history a reset port takes as many messages as it was created for, if and only
if their number fits into 16 bits and the port got its sender semaphore. -/
theorem restores_capacity_iff {count : Int} {ssem rsem : Bool} (h0 : 0 ≤ count) :
    RestoresCapacity count ssem rsem ↔ count ≤ 65535 ∧ ssem = true := by
  constructor
  · intro h
    have hssem := ssem_of_restores h0 h
    subst hssem
    exact ⟨le_of_restores h0 h, rfl⟩
  · rintro ⟨hle, rfl⟩
    exact restores_of h0 hle

/-- A port for five messages. -/
theorem restores_capacity_five : RestoresCapacity 5 true true :=
  (restores_capacity_iff (by decide)).mpr (by decide)

/-- A port for 65536 messages takes none after a reset. -/
theorem restores_capacity_lost : ¬RestoresCapacity 65536 true true :=
  fun h => absurd (le_of_restores (by decide) h) (by decide)

end MessagePort
end BbbXinu
