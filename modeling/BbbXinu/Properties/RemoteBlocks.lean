import BbbXinu.Invariant.RdsContents

/-!
# The blocks of the remote disk

What {lit}`rdsread` returns is what its block held between the call and the return.
-/

namespace BbbXinu
namespace Rds

section

variable {a : Account} {s s' : Disk} {reqs cached free : List Ptr} {l : Label}

/-- A step keeps lists and account in agreement, and a read returns what was seen. -/
theorem Faithful.step (h : Faithful a s reqs cached) (hI : Sound False 0 s reqs cached free [])
    (hclear : Clear s l) (hs : s.step l = some s') :
    Kept (record a s l s') s' ∧ ∀ pid blk, s.returned l s' = some (pid, blk) →
      (record a s l s').Saw pid blk (s'.buff pid) := by
  unfold Disk.step at hs
  obtain ⟨hrun, hs⟩ := Option.ite_none_left_eq_some.mp hs
  have hpan : s.panicked = false := Bool.eq_false_iff.mpr hrun
  cases l with
  | read pid blk =>
      simp only at hs
      split at hs
      · rename_i hidle
        obtain ⟨hkept, hdata⟩ := h.rdsread hI hidle hs
        refine ⟨hkept, fun p k hret => ?_⟩
        obtain ⟨hreturned, hpk⟩ := Option.ite_none_right_eq_some.mp hret
        cases hpk
        rcases hdata with hpanic | hbusy | hdata
        · exact absurd (hpanic.symm.trans hreturned.2.1) nofun
        · exact absurd (hbusy.symm.trans hreturned.2.2) nofun
        · refine ⟨a.content, ?_, hdata⟩
          change a.content ∈ upd a.seen pid [a.content] pid
          rw [upd_self]
          exact List.mem_cons_self
      · cases hs
  | write pid blk buff =>
      simp only at hs
      split at hs
      · rename_i hidle
        refine ⟨?_, nofun⟩
        unfold record Disk.written
        rcases h.rdswrite hI hidle hs with ⟨hsame, hdone, hkept⟩ | ⟨hstop, hkept⟩
        · simp only [if_pos (show s.state = .opened ∧ s'.panicked = false ∧ _ from
            ⟨h.opened, hsame.trans hpan, hdone⟩)]
          exact hkept
        · have hnot : ¬(s.state = .opened ∧ s'.panicked = false ∧ (s'.phase pid).isIdle = true) := by
            rintro ⟨-, hno, hdone⟩
            rcases hstop with hstop | hstop
            · exact absurd (hstop.symm.trans hno) nofun
            · exact absurd (hstop.symm.trans hdone) nofun
          simp only [if_neg hnot]
          exact hkept
      · cases hs
  | sync pid => exact hclear.elim
  | delete pid => exact hclear.elim
  | deleted pid reply => exact hclear.elim
  | alloc pid =>
      obtain ⟨hmem, hs⟩ := Option.ite_none_right_eq_some.mp hs
      refine ⟨?_, nofun⟩
      unfold record Disk.written
      rcases h.resumed hI hmem hclear hs with ⟨hsame, hkept⟩ | ⟨hpanic, hkept⟩
      · simp only [if_pos (hsame.trans hpan)]
        cases hw : (s.phase pid).writes with
        | none =>
            rw [hw] at hkept
            exact hkept
        | some w =>
            rw [hw] at hkept
            exact hkept
      · rw [hpanic]
        exact hkept
  | receive pid =>
      simp only at hs
      split at hs
      · rename_i blk b hp hm
        obtain ⟨hkept, hsaw⟩ := h.rdsreadWake hI hp hm hs
        refine ⟨hkept, fun p k hret => ?_⟩
        unfold Disk.returned at hret
        simp only [hp] at hret
        cases hret
        exact hsaw
      · rename_i m hp hm
        cases hs
        refine ⟨⟨reqs, cached, free, hI.shape.congr rfl rfl rfl, ?_⟩, fun p k hret => ?_⟩
        · have hkeep : ∀ p, p ≠ pid →
              ((s.recvclr pid).setPhase pid .idle).phase p = s.phase p ∧
              ((s.recvclr pid).setPhase pid .idle).mail p = s.mail p :=
            fun p hp => ⟨upd_of_ne hp, upd_of_ne hp⟩
          have hidle : ((s.recvclr pid).setPhase pid .idle).phase pid = .idle := upd_self
          refine h.congr rfl rfl rfl rfl rfl (fun p => ?_) fun p k c hp' hm' => ?_
          · by_cases heq : p = pid
            · rw [heq, hidle]
              exact nofun
            · rw [(hkeep p heq).1]
              exact h.plain p
          · by_cases heq : p = pid
            · rw [heq, hidle] at hp'
              cases hp'
            · rw [(hkeep p heq).1] at hp'
              rw [(hkeep p heq).2] at hm'
              exact ⟨hp', hm'⟩
        · unfold Disk.returned at hret
          simp only [hp] at hret
          cases hret
      · cases hs
  | comm => exact ⟨h.rdsprocess hI hclear hs, nofun⟩

end

/-!
## Runs
-/

/-- A disk with an account of what it holds: at first, what the server has. -/
def Start (t : Disk × Account) : Prop :=
  Disk.Init t.1 ∧ t.2 = { content := t.1.server, seen := fun _ => [t.1.server] }

theorem Faithful.init {s : Disk} (h : Disk.Init s) :
    Faithful { content := s.server, seen := fun _ => [s.server] } s [] [] := by
  obtain ⟨server, msgBlk, rfl⟩ := h
  exact
    { opened := rfl
      plain := fun _ => nofun
      coherent := WriteBack.Coherent.nil
      kinds := nofun
      unreferenced := nofun
      latest := fun _ => List.mem_cons_self
      asked := nofun
      reading := nofun
      answered := nofun
      told := nofun }

theorem Faithful.of_reach {t : Disk × Account}
    (h : Runs.Reach (Runs.observed Disk.step record) (fun t l => Clear t.1 l) Start t) :
    ∃ reqs cached free, Sound False 0 t.1 reqs cached free [] ∧ Faithful t.2 t.1 reqs cached := by
  refine h.invariant (I := fun t => ∃ reqs cached free,
    Sound False 0 t.1 reqs cached free [] ∧ Faithful t.2 t.1 reqs cached) ?_ ?_
  · rintro ⟨s, a⟩ ⟨hinit, ha⟩
    have haccount : a = { content := s.server, seen := fun _ => [s.server] } := ha
    subst haccount
    have hfaithful := Faithful.init hinit
    obtain ⟨server, msgBlk, rfl⟩ := hinit
    exact ⟨[], [], buffers, Sound.init, hfaithful⟩
  · rintro t l t' - ⟨reqs, cached, free, hI, hfaithful⟩ hclear hs
    obtain ⟨hstep, hrec⟩ := Runs.observed_eq hs
    obtain ⟨-, reqs', cached', free', -, hI'⟩ := hI.step hclear.orderly False.elim hstep
    have hkept := (hfaithful.step hI hclear hstep).1
    rw [← hrec] at hkept
    exact ⟨reqs', cached', free', hI', hkept.faithful hI'.shape⟩

/-- In every run of {lit}`rdsread`, {lit}`rdswrite` and {lit}`rdsprocess` in which no other
request for a block is queued when a request to read it has been answered, a process that
waited for a buffer finds no data for its block queued or cached when it goes on, and the
message that is sent to read a block has the number of the block: when {lit}`rdsread`
returns, it has copied what its block held at some time since the call. -/
theorem reads_see_writes {t t' : Disk × Account} {l : Label} {pid : Int} {blk : UInt32}
    (h : Runs.Reach (Runs.observed Disk.step record) (fun t l => Clear t.1 l) Start t)
    (hclear : Clear t.1 l) (hs : Runs.observed Disk.step record t l = some t')
    (hret : t.1.returned l t'.1 = some (pid, blk)) : t'.2.Saw pid blk (t'.1.buff pid) := by
  obtain ⟨reqs, cached, free, hI, hfaithful⟩ := Faithful.of_reach h
  obtain ⟨hstep, hrec⟩ := Runs.observed_eq hs
  rw [hrec]
  exact (hfaithful.step hI hclear hstep).2 pid blk hret

/-- Block 5 is written, and another process reads it: there is one thing it can have seen. -/
theorem reads_see_writes_cached :
    ∃ t : Disk × Account, t.2.Saw 2 5 (t.1.buff 2) ∧ t.1.buff 2 0 = 9 := by
  obtain ⟨t, hreach, hP⟩ := Runs.exists_reach_of_follow (Runs.observed Disk.step record)
    (fun t l => Clear t.1 l)
    (show Start (Disk.init fun _ _ => 0, ⟨fun _ _ => 0, fun _ => [fun _ _ => 0]⟩) from
      ⟨⟨_, 0, rfl⟩, rfl⟩)
    [.write 1 5 (fun _ => 9), .comm]
    (fun t => (Runs.observed Disk.step record t (.read 2 5)).any
      (fun t' => decide (t.1.returned (.read 2 5) t'.1 = some (2, 5) ∧ t'.1.buff 2 0 = 9)) = true)
    (by decide +kernel)
  obtain ⟨t', hs, hP⟩ := (Option.any_eq_true _ _).mp hP
  obtain ⟨hret, hdata⟩ := of_decide_eq_true hP
  exact ⟨t', reads_see_writes hreach (show Clear t.1 (.read 2 5) from trivial) hs hret, hdata⟩

/-- Block 1 is written, and block 5 is read after that: the message has still the number of
block 1, and the reader gets what block 5 has never held. -/
theorem reads_wrong_block : ∃ t t' : Disk × Account, ∃ l,
    Runs.Reach (Runs.observed Disk.step record) (fun _ _ => True) Start t ∧
    Runs.observed Disk.step record t l = some t' ∧ t.1.returned l t'.1 = some (2, 5) ∧
    ¬t'.2.Saw 2 5 (t'.1.buff 2) := by
  obtain ⟨t, hreach, hP⟩ := Runs.exists_reach_of_follow (Runs.observed Disk.step record)
    (fun _ _ => True)
    (show Start (Disk.init fun _ _ => 0, ⟨fun _ _ => 0, fun _ => [fun _ _ => 0]⟩) from
      ⟨⟨_, 0, rfl⟩, rfl⟩)
    [.write 1 1 (fun _ => 9), .comm, .comm, .read 2 5, .comm, .comm, .comm]
    (fun t => (Runs.observed Disk.step record t (.receive 2)).any
      (fun t' => decide (t.1.returned (.receive 2) t'.1 = some (2, 5) ∧
        ∀ c ∈ t'.2.seen 2, c 5 0 ≠ t'.1.buff 2 0)) = true)
    (by decide +kernel)
  obtain ⟨t', hs, hP⟩ := (Option.any_eq_true _ _).mp hP
  obtain ⟨hret, hdata⟩ := of_decide_eq_true hP
  refine ⟨t, t', .receive 2, hreach, hs, hret, ?_⟩
  rintro ⟨c, hc, hx⟩
  exact hdata c hc (congrFun hx 0)

end Rds
end BbbXinu
