import BbbXinu.Invariant.RdsRuns

/-!
# The requests of the remote disk

Every request that is signalled is taken once, in the order in which it was put into the
queue, and the count of the request semaphore is the number of those that are not taken yet.
-/

namespace BbbXinu
namespace Rds

open LinkedLists

/-!
## Pending requests
-/

namespace Disk

/-- The requests of the queue at which {lit}`rdsprocess` does not work yet. -/
def pending (s : Disk) : List Ptr :=
  (walk s.next IsBuffer RD_BUFFS (s.next .rhnext)).drop s.atWork

/-- {lit}`rdsprocess` waits for a request, or is about to. -/
def AtWait (s : Disk) : Prop := s.comm = .ready ∨ s.comm = .waiting

end Disk

/-- An orderly step that is no request to synchronize the disk. -/
def Announced (s : Disk) (l : Label) : Prop := Orderly s l ∧ ∀ pid ∈ l.pid, l ≠ .sync pid

/-- A label that is no request to synchronize the disk. -/
def Label.notSync : Label → Bool
  | .sync _ => false
  | _ => true

instance (s : Disk) (l : Label) : Decidable (Announced s l) :=
  decidable_of_iff (Orderly s l ∧ l.notSync = true) <| by
    refine and_congr_right fun _ => ?_
    cases l with
    | sync pid => exact ⟨nofun, fun h => absurd rfl (h pid rfl)⟩
    | read pid blk => exact ⟨fun _ _ _ => nofun, fun _ => rfl⟩
    | write pid blk buff => exact ⟨fun _ _ _ => nofun, fun _ => rfl⟩
    | delete pid => exact ⟨fun _ _ _ => nofun, fun _ => rfl⟩
    | deleted pid reply => exact ⟨fun _ _ _ => nofun, fun _ => rfl⟩
    | alloc pid => exact ⟨fun _ _ _ => nofun, fun _ => rfl⟩
    | receive pid => exact ⟨fun _ _ _ => nofun, fun _ => rfl⟩
    | comm => exact ⟨fun _ _ _ => nofun, fun _ => rfl⟩

section

variable {s s' : Disk} {reqs cached free : List Ptr} {A : Prop}

theorem Announced.ne_sync {l : Label} (h : Announced s l) (pid : Int) : l ≠ .sync pid := by
  rintro rfl
  exact h.2 pid rfl rfl

theorem Shape.pending_eq {held : List Ptr} (h : Shape s reqs cached free held) :
    s.pending = reqs.drop s.atWork := by
  change s.queuedList.drop s.atWork = _
  rw [h.queuedList_eq]

/-- Without requests to synchronize the disk every request has been signalled. -/
theorem syncs_eq_zero (h : s.Unsynced) : s.log.syncs = 0 :=
  List.countP_eq_zero.mpr fun r hr hop => h.2 r hr (of_decide_eq_true hop)

/-- A request leaves the queue through {lit}`take` and there the log has it. -/
theorem take_taken :
    s.take.log.taken = s.log.taken ++ [(s.node (s.next .rhnext)).request] := by
  unfold Disk.take
  simp only
  split
  · rfl
  · rfl
  · have hsend : ∀ (t : Disk) (pid : Int) (m : Msg), (t.send pid m).log = t.log := by
      intro t pid m
      unfold Disk.send
      split <;> rfl
    exact congrArg Log.taken (hsend _ _ _)
  · rfl

/-- {lit}`rdsprocess` goes into its wait, or takes the first request. -/
theorem comm_cases (hwait : s.AtWait) (h : s.rdsprocess = some s') :
    s'.comm = .waiting ∨
      s'.log.taken = s.log.taken ++ [(s.node (s.next .rhnext)).request] ∧
      (s.reqsem.Open ∨ () ∈ s.reqsem.granted) := by
  unfold Disk.rdsprocess at h
  rcases hwait with hcomm | hcomm
  · rw [hcomm] at h
    by_cases hopen : s.reqsem.Open
    · simp only [if_pos hopen] at h
      cases h
      exact Or.inr ⟨take_taken (s := s.enterReq), Or.inl hopen⟩
    · simp only [if_neg hopen] at h
      cases h
      exact Or.inl rfl
  · rw [hcomm] at h
    obtain ⟨hmem, h⟩ := Option.ite_none_right_eq_some.mp h
    cases h
    exact Or.inr ⟨take_taken (s := s.resumeReq), Or.inr hmem⟩

/-- Whoever has passed the wait, or can, finds a unit. -/
theorem units_pos {T : Turnstile Unit} (h : T.Open ∨ () ∈ T.granted) : 0 < T.units := by
  rcases h with hopen | hmem
  · have hle := T.count_le_units
    unfold Turnstile.Open at hopen
    omega
  · have hresume := Turnstile.units_resume hmem
    have hnonneg := (T.resume ()).units_nonneg
    omega

/-- {lit}`rdsprocess` goes on while a request is pending. -/
theorem Sound.comm_isSome (h : Sound A 0 s reqs cached free []) (hu : s.Unsynced)
    (hpend : reqs.drop s.atWork ≠ []) : s.rdsprocess.isSome = true := by
  unfold Disk.rdsprocess
  cases hcomm : s.comm with
  | waiting =>
      have hpending := h.orders.pending
      have hwaiting := h.orders.waiting
      have hpos := List.length_pos_iff.mpr hpend
      rw [syncs_eq_zero hu] at hpending
      rw [hcomm] at hwaiting
      change s.reqsem.inside.length = 1 at hwaiting
      have hgranted : s.reqsem.granted ≠ [] := by
        intro hnil
        have hsized := s.reqsem.queue.length_of_neg
        have hnone := s.reqsem.queue.nil_of_nonneg
        unfold Turnstile.units at hpending
        unfold Turnstile.inside at hpending hwaiting
        rw [hnil, List.append_nil] at hpending hwaiting
        by_cases hneg : s.reqsem.queue.count < 0
        · have hlen := hsized hneg
          omega
        · rw [hnone (Int.not_lt.mp hneg)] at hwaiting
          cases hwaiting
      obtain ⟨u, hu⟩ := List.exists_mem_of_ne_nil _ hgranted
      have hmem : () ∈ s.reqsem.granted := hu
      simp only [if_pos hmem]
      rfl
  | told b =>
      have hseek := h.shape.seekRequest_eq fun n => decide (n.blknum = (s.node b).blknum)
      change (s.tellOther b).isSome = true
      unfold Disk.tellOther Disk.sameBlock
      rw [hseek]
      rfl
  | ready => rfl
  | reading b => rfl
  | answered b => rfl
  | matched b q => rfl
  | writing blk data => rfl
  | synced b => rfl

/-- A process that deletes the disk does so by one exchange with the server. -/
theorem deleting_kept {pid : Int} {l : Label} (hp : s.phase pid = .deleting)
    (hs : s.step l = some s') :
    s'.phase pid = .deleting ∨ (∃ reply, l = .deleted pid reply) ∧ s'.phase pid = .idle := by
  by_cases hpid : l.pid = some pid
  · unfold Disk.step at hs
    obtain ⟨-, hs⟩ := Option.ite_none_left_eq_some.mp hs
    cases l with
    | deleted p reply =>
        cases hpid
        simp only [hp] at hs
        refine Or.inr ⟨⟨reply, rfl⟩, ?_⟩
        have hidle : (s.setPhase pid .idle).phase pid = .idle := upd_self
        cases reply with
        | none =>
            cases hs
            exact hidle
        | some server =>
            have hclose := rdsclose_apart (s := { s.setPhase pid .idle with server := server }) hs
            exact (congrFun hclose.1.1 pid).trans hidle
    | read p blk =>
        cases hpid
        simp only [hp] at hs
        cases hs
    | write p blk buff =>
        cases hpid
        simp only [hp] at hs
        cases hs
    | sync p =>
        cases hpid
        simp only [hp] at hs
        cases hs
    | delete p =>
        cases hpid
        simp only [hp] at hs
        cases hs
    | alloc p =>
        cases hpid
        obtain ⟨-, hs⟩ := Option.ite_none_right_eq_some.mp hs
        rw [hp] at hs
        cases hs
    | receive p =>
        cases hpid
        simp only [hp] at hs
        cases hs
    | comm => cases hpid
  · exact Or.inl ((step_phase hs hpid).trans hp)

end

/-!
## Runs
-/

/-- In every run in which nobody asks to synchronize the disk, no other request for a block
is queued when a request to read it has been answered, and no buffer is referenced when the
disk is deleted: the count of the request semaphore, with the unit for which
{lit}`rdsprocess` waits, is the number of requests that are not taken yet; each request is
taken once, in order; {lit}`rdsprocess` does not pass its wait without a request, and is
not stuck with one; and a request to delete the disk is one exchange with the server. -/
theorem requests_counted {s : Disk} (h : Runs.Reach Disk.step Announced Disk.Init s) :
    s.reqsem.queue.count + s.comm.waits = s.pending.length ∧
    s.log.asked = s.log.taken ++ s.pending.map (fun b => (s.node b).request) ∧
    (∀ s', s.AtWait → s.step .comm = some s' → s'.comm = .waiting ∨
      ∃ b rest, s.pending = b :: rest ∧
        s'.log.taken = s.log.taken ++ [(s.node b).request]) ∧
    (s.panicked = false → s.pending ≠ [] → (s.step .comm).isSome = true) ∧
    ∀ pid l s', s.phase pid = .deleting → s.step l = some s' → s'.phase pid = .deleting ∨
      (∃ reply, l = .deleted pid reply) ∧ s'.phase pid = .idle := by
  obtain ⟨-, reqs, cached, free, hI⟩ :=
    Sound.of_reach (A := False) h fun _ _ hl => ⟨hl.1, fun hA => hA.elim⟩
  have hu : s.Unsynced := by
    refine h.invariant (I := Disk.Unsynced) ?_ fun s l s' _ hu hl hs =>
      step_unsynced hs hl.ne_sync hu
    rintro _ ⟨server, msgBlk, rfl⟩
    exact ⟨fun _ => nofun, fun _ hr => by cases hr⟩
  have hpend := hI.orders.pending
  have hwaiting := hI.orders.waiting
  rw [syncs_eq_zero hu] at hpend
  have hcount : s.reqsem.queue.count + s.comm.waits = (reqs.drop s.atWork).length := by
    unfold Turnstile.units at hpend
    omega
  rw [hI.shape.pending_eq]
  refine ⟨hcount, hI.orders.logged, fun s' hwait hs => ?_, fun hpan hne => ?_,
    fun pid l s' hp hs => deleting_kept hp hs⟩
  · unfold Disk.step at hs
    obtain ⟨-, hs⟩ := Option.ite_none_left_eq_some.mp hs
    rcases comm_cases hwait hs with hw | ⟨htaken, hpass⟩
    · exact Or.inl hw
    · have hpos := units_pos hpass
      have hwork : s.atWork = 0 := by
        unfold Disk.atWork
        rcases hwait with hc | hc <;> rw [hc] <;> rfl
      rw [hwork, List.drop_zero] at hpend ⊢
      cases reqs with
      | nil =>
          rw [List.length_nil] at hpend
          omega
      | cons b rest =>
          have hhead : s.next .rhnext = b := hI.shape.reqs_seg.1
          rw [hhead] at htaken
          exact Or.inr ⟨b, rest, rfl, htaken⟩
  · unfold Disk.step
    rw [if_neg (by rw [hpan]; exact nofun)]
    exact hI.comm_isSome hu hne

/-- A block is written, and another one is asked for while that goes on. -/
theorem requests_counted_write : ∃ s : Disk, s.reqsem.queue.count = 1 ∧ s.pending.length = 1 ∧
    s.reqsem.queue.count + s.comm.waits = s.pending.length ∧ s.log.taken.length = 1 ∧
    s.log.asked = s.log.taken ++ s.pending.map fun b => (s.node b).request := by
  obtain ⟨s, hs, hcount, hpend, htaken⟩ := Runs.exists_reach_of_follow Disk.step Announced
    (show Disk.Init (Disk.init fun _ _ => 0) from ⟨_, 0, rfl⟩)
    [.comm, .write 1 5 (fun _ => 9), .comm, .read 2 6]
    (fun s => s.reqsem.queue.count = 1 ∧ s.pending.length = 1 ∧ s.log.taken.length = 1)
    (by decide +kernel)
  obtain ⟨hall, hlog, -⟩ := requests_counted hs
  exact ⟨s, hcount, hpend, hall, htaken, hlog⟩

/-- A request to synchronize the disk is queued without a signal, and {lit}`rdsprocess` is
stuck in its wait.  And when a second request for a block is dropped, its unit remains, so
that {lit}`rdsprocess` passes its wait although the queue does not lead to a buffer. -/
theorem requests_miscounted :
    (∃ s, Runs.Reach Disk.step (fun _ _ => True) Disk.Init s ∧
      s.reqsem.queue.count + s.comm.waits = 0 ∧ s.pending.length = 1 ∧
      (s.step .comm).isNone = true) ∧
    ∃ s, Runs.Reach Disk.step (fun _ _ => True) Disk.Init s ∧ s.reqsem.queue.count = 1 ∧
      s.comm.waits = 0 ∧ s.pending = [] ∧ ¬IsBuffer (s.next .rhnext) ∧
      (s.step .comm).any (fun s' => decide (s'.log.taken.length = s.log.taken.length + 1)) =
        true := by
  constructor
  · exact Runs.exists_reach_of_follow Disk.step (fun _ _ => True)
      (show Disk.Init (Disk.init fun _ _ => 0) from ⟨_, 0, rfl⟩) [.comm, .sync 1]
      (fun s => s.reqsem.queue.count + s.comm.waits = 0 ∧ s.pending.length = 1 ∧
        (s.step .comm).isNone = true)
      (by decide +kernel)
  · exact Runs.exists_reach_of_follow Disk.step (fun _ _ => True)
      (show Disk.Init (Disk.init fun _ _ => 0) from ⟨_, 0, rfl⟩)
      [.read 1 5, .comm, .write 2 5 (fun _ => 9), .comm, .comm, .comm, .comm]
      (fun s => s.reqsem.queue.count = 1 ∧ s.comm.waits = 0 ∧ s.pending = [] ∧
        ¬IsBuffer (s.next .rhnext) ∧
        (s.step .comm).any
          (fun s' => decide (s'.log.taken.length = s.log.taken.length + 1)) = true)
      (by decide +kernel)

end Rds
end BbbXinu
