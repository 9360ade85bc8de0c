import BbbXinu.Invariant.Serves
import BbbXinu.Properties.Tables
import Mathlib.Data.Int.ModEq
import Mathlib.Data.List.ProdSigma

/-!
# State times

{lit}`negtime` borrows 1000 milliseconds from a second, but {lit}`addtime`
carries a second for 60 milliseconds.  Read by {lit}`prttime`, every such carry
adds 940 milliseconds that nobody spent.
-/

namespace BbbXinu

open Runs

/-!
## Reading times
-/

namespace Mstime

/-- The milliseconds that a clock value stands for. -/
def millis (t : Mstime) : Nat := t.secs * 1000 + t.ms

/-- A value of {lit}`NOW`. -/
structure OfClock (t : Mstime) : Prop where
  secs : t.secs < 4294967296
  ms : t.ms < 1000

/-- The time that {lit}`record_cpuqdata` adds to a counter. -/
def interval (timein timenow : Mstime) : Mstime :=
  let tmptime := timenow.negtime timein
  if tmptime.secs ≤ 0 ∧ tmptime.ms ≤ 0 then { tmptime with ms := 1 } else tmptime

/-- The milliseconds of an interval, less its whole seconds. -/
def msSpent (timein timenow : Mstime) : Nat :=
  if timenow = timein then 1 else (timenow.ms + 1000 - timein.ms) % 1000

end Mstime

open Mstime

/-- The states of a process, in the order of their values. -/
def prStates : List PrState := [.free, .curr, .ready, .recv, .sleep, .susp, .wait, .rectim]

/-- The counters that a process has for each scheduler and state. -/
def counters : List (Nat × PrState) := (List.range QTYPE_VALS).product prStates

namespace Xinu

variable (s : Xinu) (pid : Int)

def counter (k : Nat × PrState) : Mstime := (s.proctab pid).statetimes k.1 k.2

/-- The counter that a record of the process is added to. -/
def charged : Nat × PrState := (s.envtab EV_SCHEDULER, (s.proctab pid).prstate)

/-- The sum of the counters of a process, as {lit}`prttime` reads them. -/
def timesum : Int := (counters.map fun k => ((s.counter pid k).prttime : Int)).sum

/-- That sum in the 32 bits that {lit}`prttime` has. -/
def totaltime : Nat := uint32 (s.timesum pid)

end Xinu

section

variable {timein timenow t u : Mstime}

theorem uint32_eq_iff {a b : Int} : uint32 a = uint32 b ↔ a ≡ b [ZMOD 4294967296] := by
  unfold uint32 Int.ModEq
  omega

theorem uint32_modEq (a : Int) : (uint32 a : Int) ≡ a [ZMOD 4294967296] := by
  unfold uint32 Int.ModEq
  omega

theorem millis_inj (ht : t.OfClock) (hu : u.OfClock) (h : t.millis = u.millis) : t = u := by
  have hms := ht.ms
  have hms' := hu.ms
  cases t
  cases u
  unfold millis at h
  dsimp only at *
  congr 1 <;> omega

/-- What {lit}`prttime` reads after an addition: each carry adds 940. -/
theorem addtime_prttime (t u : Mstime) (h : t.ms + u.ms < 4294967296) :
    ((t.addtime u).prttime : Int) ≡ t.prttime + u.millis + 940 * ((t.ms + u.ms) / 60 : Nat)
      [ZMOD 4294967296] := by
  have hms : uint32 (t.ms + u.ms) = t.ms + u.ms := by
    unfold uint32
    omega
  unfold addtime prttime millis
  rw [hms]
  unfold uint32 Int.ModEq
  push_cast
  omega

/-- {lit}`negtime` gives no time only between equal values. -/
theorem negtime_zero_iff (ht : timein.OfClock) (hn : timenow.OfClock) :
    ((timenow.negtime timein).secs ≤ 0 ∧ (timenow.negtime timein).ms ≤ 0) ↔
      timenow = timein := by
  have hts := ht.secs
  have htm := ht.ms
  have hns := hn.secs
  have hnm := hn.ms
  constructor
  · intro h
    apply millis_inj hn ht
    unfold negtime millis at *
    split at h <;> dsimp only [uint32] at h <;> omega
  · intro h
    subst h
    unfold negtime
    rw [if_neg (Nat.lt_irrefl _)]
    simp [uint32]

theorem negtime_ms (ht : timein.OfClock) (hn : timenow.OfClock) :
    (timenow.negtime timein).ms = (timenow.ms + 1000 - timein.ms) % 1000 := by
  have htm := ht.ms
  have hnm := hn.ms
  unfold negtime
  split <;> dsimp only [uint32] <;> omega

/-- An interval is the difference of the clock values, also when the seconds of
the clock started over in between. -/
theorem interval_millis (ht : timein.OfClock) (hn : timenow.OfClock) :
    ((interval timein timenow).millis : Int) ≡
      timenow.millis - timein.millis + (if timenow = timein then 1 else 0)
      [ZMOD 4294967296] := by
  have htm := ht.ms
  have hnm := hn.ms
  unfold interval
  dsimp only
  rw [if_congr (negtime_zero_iff ht hn) rfl rfl]
  split
  · rename_i heq
    have hsecs := ((negtime_zero_iff ht hn).mpr heq).1
    have hzero : (timenow.negtime timein).secs = 0 := Nat.le_zero.mp hsecs
    rw [heq] at hzero ⊢
    unfold millis Int.ModEq
    rw [hzero]
    dsimp only
    omega
  · unfold negtime millis Int.ModEq
    split <;> dsimp only [uint32] <;> omega

theorem interval_ms (ht : timein.OfClock) (hn : timenow.OfClock) :
    (interval timein timenow).ms = msSpent timein timenow := by
  unfold interval msSpent
  dsimp only
  rw [if_congr (negtime_zero_iff ht hn) rfl rfl]
  split
  · rfl
  · exact negtime_ms ht hn

end

/-!
## One record
-/

namespace Xinu

/-- A record of the process with the clock set and the counters in reach. -/
structure Recordable (s : Xinu) (pid : Int) : Prop where
  on : s.recording
  good : ¬ s.isbadpid pid
  sched : s.envtab EV_SCHEDULER < QTYPE_VALS
  secs : s.clktime < 4294967296
  count_pos : 0 < s.count1000
  count_le : s.count1000 ≤ 1000

end Xinu

section

variable {s : Xinu} {pid : Int}

theorem Xinu.Recordable.now (h : s.Recordable pid) : s.now.OfClock := by
  have hpos := h.count_pos
  have hle := h.count_le
  constructor
  · exact h.secs
  · unfold Xinu.now
    dsimp only
    split
    · unfold uint32
      omega
    · decide

theorem Xinu.Recordable.mem_counters (h : s.Recordable pid) : s.charged pid ∈ counters := by
  have hsched := List.mem_range.mpr h.sched
  apply List.mem_product.mpr
  constructor
  · exact hsched
  · show (s.proctab pid).prstate ∈ prStates
    cases (s.proctab pid).prstate <;> decide

theorem recordCpuqdata_timestatein (h : s.Recordable pid) :
    ((s.recordCpuqdata pid).proctab pid).timestatein = s.now := by
  have hon : s.envtab EV_CPUQDATA ≠ 0 ∨ s.envtab EV_SCHEDULER = QTYPE_SJF := h.on
  unfold Xinu.recordCpuqdata
  rw [if_pos hon, if_neg h.good]
  dsimp only [Xinu.setProc]
  rw [upd_apply, if_pos rfl]

theorem recordCpuqdata_counter (h : s.Recordable pid)
    (hstamp : (s.proctab pid).timestatein ≠ ztime) (k : Nat × PrState) :
    (s.recordCpuqdata pid).counter pid k =
      if k = s.charged pid then
        (s.counter pid k).addtime (interval (s.proctab pid).timestatein s.now)
      else s.counter pid k := by
  have hon : s.envtab EV_CPUQDATA ≠ 0 ∨ s.envtab EV_SCHEDULER = QTYPE_SJF := h.on
  have hset : (s.proctab pid).timestatein.secs ≠ 0 ∨ (s.proctab pid).timestatein.ms ≠ 0 := by
    by_contra hz
    apply hstamp
    cases hs : (s.proctab pid).timestatein
    rw [hs] at hz
    dsimp only at hz
    unfold ztime
    congr 1 <;> omega
  have hcharged : k = s.charged pid ↔
      k.1 = s.envtab EV_SCHEDULER ∧ k.2 = (s.proctab pid).prstate := Prod.ext_iff
  unfold Xinu.recordCpuqdata
  rw [if_pos hon, if_neg h.good]
  dsimp only
  rw [if_pos hset, if_congr hcharged rfl rfl]
  unfold Xinu.counter
  by_cases h0 : pid = 0
  · rw [if_neg (not_not.mpr h0)]
    dsimp only [Xinu.setProc]
    rw [upd_apply, if_pos rfl, upd_apply, if_pos rfl]
    rfl
  · rw [if_pos h0]
    dsimp only [Xinu.setProc]
    rw [upd_apply, if_pos rfl, upd_apply, if_pos rfl]
    rfl

end

/-!
## Sequences of records
-/

/-- Nothing is recorded for the process between the two states. -/
structure Unrecorded (pid : Int) (s s' : Xinu) : Prop where
  timestatein : (s'.proctab pid).timestatein = (s.proctab pid).timestatein
  counter : ∀ k ∈ counters, s'.counter pid k = s.counter pid k

/-- The process is recorded in the given states, one after the other. -/
inductive RecordRun (pid : Int) : Xinu → List Xinu → Xinu → Prop where
  | nil (s : Xinu) : RecordRun pid s [] s
  | cons {s x s' : Xinu} {xs : List Xinu} : Unrecorded pid s x → x.Recordable pid →
      (x.proctab pid).timestatein ≠ ztime →
      RecordRun pid (x.recordCpuqdata pid) xs s' → RecordRun pid s (x :: xs) s'

/-- The time of the last record. -/
def lastRecord (timein : Mstime) : List Xinu → Mstime
  | [] => timein
  | x :: xs => lastRecord x.now xs

/-- How many records have an interval of zero. -/
def zeroIntervals (timein : Mstime) : List Xinu → Nat
  | [] => 0
  | x :: xs => (if x.now = timein then 1 else 0) + zeroIntervals x.now xs

/-- The milliseconds charged to a counter, less the whole seconds of each
interval. -/
def msCharged (pid : Int) (k : Nat × PrState) (timein : Mstime) : List Xinu → Nat
  | [] => 0
  | x :: xs =>
      (if k = x.charged pid then msSpent timein x.now else 0) + msCharged pid k x.now xs

/-- How often the milliseconds of a counter pass 60. -/
def carriesOf (pid : Int) (s : Xinu) (xs : List Xinu) (k : Nat × PrState) : Nat :=
  ((s.counter pid k).ms + msCharged pid k (s.proctab pid).timestatein xs) / 60

def carries (pid : Int) (s : Xinu) (xs : List Xinu) : Int :=
  (counters.map fun k => (carriesOf pid s xs k : Int)).sum

section

variable {pid : Int} {s s' x : Xinu} {xs : List Xinu}

theorem counters_nodup : counters.Nodup := by decide

theorem msCharged_cons (k : Nat × PrState) (timein : Mstime) :
    msCharged pid k timein (x :: xs) =
      (if k = x.charged pid then msSpent timein x.now else 0) + msCharged pid k x.now xs := rfl

theorem addtime_ms_lt (t u : Mstime) : (t.addtime u).ms < 60 := Nat.mod_lt _ (by decide)

/-- One record adds its interval and 940 milliseconds for each carry. -/
theorem timesum_record (h : x.Recordable pid) (hstamp : (x.proctab pid).timestatein ≠ ztime)
    (ht : (x.proctab pid).timestatein.OfClock)
    (hms : ∀ k ∈ counters, (x.counter pid k).ms < 60) :
    (x.recordCpuqdata pid).timesum pid ≡
      x.timesum pid + (interval (x.proctab pid).timestatein x.now).millis +
        940 * (((x.counter pid (x.charged pid)).ms +
          msSpent (x.proctab pid).timestatein x.now) / 60 : Nat) [ZMOD 4294967296] := by
  have hk := h.mem_counters
  have hspent := interval_ms ht h.now
  have hsmall : (x.counter pid (x.charged pid)).ms +
      (interval (x.proctab pid).timestatein x.now).ms < 4294967296 := by
    have h60 := hms _ hk
    rw [hspent]
    unfold msSpent
    split <;> omega
  have hsum : (x.recordCpuqdata pid).timesum pid = x.timesum pid +
      (((x.recordCpuqdata pid).counter pid (x.charged pid)).prttime -
        (x.counter pid (x.charged pid)).prttime) := by
    apply sum_map_change counters_nodup hk
    intro k hne
    rw [recordCpuqdata_counter h hstamp, if_neg hne]
  have hadd := addtime_prttime _ _ hsmall
  rw [hsum, recordCpuqdata_counter h hstamp, if_pos rfl, ← hspent]
  unfold Int.ModEq at hadd ⊢
  omega

/-- The carries of a sequence are those of its first record and those of the rest. -/
theorem carries_record (h : x.Recordable pid) (hstamp : (x.proctab pid).timestatein ≠ ztime)
    (ht : (x.proctab pid).timestatein.OfClock)
    (hms : ∀ k ∈ counters, (x.counter pid k).ms < 60) :
    carries pid x (x :: xs) = carries pid (x.recordCpuqdata pid) xs +
      (((x.counter pid (x.charged pid)).ms +
        msSpent (x.proctab pid).timestatein x.now) / 60 : Nat) := by
  have hk := h.mem_counters
  have hnow := recordCpuqdata_timestatein h
  have hspent := interval_ms ht h.now
  have hms60 := hms _ hk
  have hlt : msSpent (x.proctab pid).timestatein x.now < 1000 := by
    unfold msSpent
    split <;> omega
  have hfirst : ((x.recordCpuqdata pid).counter pid (x.charged pid)).ms =
      ((x.counter pid (x.charged pid)).ms + msSpent (x.proctab pid).timestatein x.now) % 60 := by
    rw [recordCpuqdata_counter h hstamp, if_pos rfl]
    unfold addtime
    dsimp only
    rw [hspent]
    unfold uint32
    omega
  have hsum : carries pid x (x :: xs) = carries pid (x.recordCpuqdata pid) xs +
      ((carriesOf pid x (x :: xs) (x.charged pid) : Int) -
        carriesOf pid (x.recordCpuqdata pid) xs (x.charged pid)) := by
    apply sum_map_change counters_nodup hk
    intro k hne
    unfold carriesOf
    rw [hnow, recordCpuqdata_counter h hstamp, if_neg hne, msCharged_cons, if_neg hne,
      Nat.zero_add]
  rw [hsum]
  unfold carriesOf
  rw [hnow, hfirst, msCharged_cons, if_pos rfl]
  omega

theorem timesum_unrecorded (h : Unrecorded pid s x) : x.timesum pid = s.timesum pid := by
  unfold Xinu.timesum
  apply congrArg List.sum
  apply List.map_congr_left
  intro k hk
  rw [h.counter k hk]

theorem carries_unrecorded (h : Unrecorded pid s x) : carries pid s xs = carries pid x xs := by
  unfold carries
  apply congrArg List.sum
  apply List.map_congr_left
  intro k hk
  unfold carriesOf
  rw [h.counter k hk, h.timestatein]

/-- What a sequence of records adds. -/
theorem timesum_run (h : RecordRun pid s xs s')
    (ht : (s.proctab pid).timestatein.OfClock)
    (hms : ∀ k ∈ counters, (s.counter pid k).ms < 60) :
    s'.timesum pid ≡ s.timesum pid +
      ((lastRecord (s.proctab pid).timestatein xs).millis - (s.proctab pid).timestatein.millis) +
      zeroIntervals (s.proctab pid).timestatein xs + 940 * carries pid s xs
      [ZMOD 4294967296] := by
  induction h with
  | nil s =>
      have hnone : carries pid s [] = 0 := by
        unfold carries
        apply List.sum_eq_zero
        intro n hn
        rcases List.mem_map.mp hn with ⟨k, hk, rfl⟩
        have h60 := hms k hk
        unfold carriesOf msCharged
        omega
      rw [hnone]
      unfold lastRecord zeroIntervals Int.ModEq
      omega
  | @cons s x s' xs hun hrec hstamp _ ih =>
      rw [← hun.timestatein] at ht ⊢
      have hms' : ∀ k ∈ counters, (x.counter pid k).ms < 60 :=
        fun k hk => (hun.counter k hk).symm ▸ hms k hk
      have hnow := recordCpuqdata_timestatein hrec
      have hrest := ih (hnow.symm ▸ hrec.now) (by
        intro k hk
        rw [recordCpuqdata_counter hrec hstamp]
        split
        · exact addtime_ms_lt _ _
        · exact hms' k hk)
      rw [hnow] at hrest
      have hfirst := timesum_record hrec hstamp ht hms'
      have hmillis := interval_millis ht hrec.now
      rw [carries_unrecorded hun, ← timesum_unrecorded hun,
        carries_record hrec hstamp ht hms']
      unfold lastRecord zeroIntervals
      unfold Int.ModEq at hrest hfirst hmillis ⊢
      split at hmillis
      · rename_i heq
        rw [if_pos heq]
        push_cast
        omega
      · rename_i hne
        rw [if_neg hne]
        push_cast
        omega

/-- The total grows by the elapsed time and one millisecond for each empty
interval if and only if the carries add nothing in 32 bits. -/
theorem statetime_conserved_iff (h : RecordRun pid s xs s')
    (ht : (s.proctab pid).timestatein.OfClock)
    (hms : ∀ k ∈ counters, (s.counter pid k).ms < 60) :
    s'.totaltime pid = uint32 (s.totaltime pid +
      ((lastRecord (s.proctab pid).timestatein xs).millis - (s.proctab pid).timestatein.millis) +
      zeroIntervals (s.proctab pid).timestatein xs) ↔
    carries pid s xs % 1073741824 = 0 := by
  have hrun := timesum_run h ht hms
  have hstart := ((uint32_modEq (s.timesum pid)).add_right
    ((lastRecord (s.proctab pid).timestatein xs).millis -
      (s.proctab pid).timestatein.millis)).add_right (zeroIntervals (s.proctab pid).timestatein xs)
  -- The factor is four times an odd number.
  have hcarry : 940 * carries pid s xs ≡ 0 [ZMOD 4294967296] ↔
      carries pid s xs % 1073741824 = 0 := by
    unfold Int.ModEq
    omega
  unfold Xinu.totaltime
  rw [uint32_eq_iff, ← hcarry]
  constructor
  · intro hsame
    have hzero := (hrun.symm.trans hsame).trans hstart
    exact Int.ModEq.add_left_cancel' _ (hzero.trans (by rw [Int.add_zero]))
  · intro hzero
    have hsum := hrun.trans (hzero.add_left _)
    rw [Int.add_zero] at hsum
    exact hsum.trans hstart.symm

end

/-!
## Short and long intervals
-/

/-- Process 2 is created and stays suspended for some ticks of the clock. -/
def suspendedTicks (n : Nat) : List Label :=
  [.call (.create 4096 20), .call (.resume 1), .call .clkhandler, .call (.create 4096 10),
    .call (.setScheduler QTYPE_SJF)] ++ List.replicate n (.call .clkhandler)

/-- The first record of process 2 is due, after some milliseconds. -/
structure FirstRecord (s : Xinu) (n : Nat) : Prop where
  recordable : s.Recordable 2
  timestatein : (s.proctab 2).timestatein = { secs := 0, ms := 1 }
  now : s.now = { secs := 0, ms := 1 + n }
  counter : ∀ k ∈ counters, s.counter 2 k = ztime

section

variable {s : Xinu} {n : Nat}

instance (pid : Int) : Decidable (s.Recordable pid) :=
  decidable_of_iff (s.recording ∧ ¬ s.isbadpid pid ∧ s.envtab EV_SCHEDULER < QTYPE_VALS ∧
      s.clktime < 4294967296 ∧ 0 < s.count1000 ∧ s.count1000 ≤ 1000)
    ⟨fun ⟨a, b, c, d, e, f⟩ => ⟨a, b, c, d, e, f⟩, fun ⟨a, b, c, d, e, f⟩ => ⟨a, b, c, d, e, f⟩⟩

instance : Decidable (FirstRecord s n) :=
  decidable_of_iff (s.Recordable 2 ∧ (s.proctab 2).timestatein = { secs := 0, ms := 1 } ∧
      s.now = { secs := 0, ms := 1 + n } ∧ ∀ k ∈ counters, s.counter 2 k = ztime)
    ⟨fun ⟨a, b, c, d⟩ => ⟨a, b, c, d⟩, fun ⟨a, b, c, d⟩ => ⟨a, b, c, d⟩⟩

theorem FirstRecord.ofClock (h : FirstRecord s n) : (s.proctab 2).timestatein.OfClock := by
  rw [h.timestatein]
  exact ⟨by decide, by decide⟩

theorem FirstRecord.ms_lt (h : FirstRecord s n) (k : Nat × PrState) (hk : k ∈ counters) :
    (s.counter 2 k).ms < 60 := by
  rw [h.counter k hk]
  decide

theorem FirstRecord.run (h : FirstRecord s n) : RecordRun 2 s [s] (s.recordCpuqdata 2) := by
  have hstart := h.timestatein
  refine .cons ⟨rfl, fun _ _ => rfl⟩ h.recordable ?_ (.nil _)
  rw [hstart]
  decide

end

/-- Two milliseconds are recorded as two. -/
theorem statetime_conserved_two :
    ∃ s, FirstRecord s 2 ∧
      (s.recordCpuqdata 2).totaltime 2 = uint32 (s.totaltime 2 +
        ((lastRecord (s.proctab 2).timestatein [s]).millis -
          (s.proctab 2).timestatein.millis) +
        zeroIntervals (s.proctab 2).timestatein [s]) := by
  rcases exists_reach_of_follow Xinu.step AnyCalls booted_sample (suspendedTicks 2)
    (fun s => FirstRecord s 2 ∧ carries 2 s [s] % 1073741824 = 0)
    (by decide +kernel) with ⟨s, _, h, hcarry⟩
  exact ⟨s, h, (statetime_conserved_iff h.run h.ofClock h.ms_lt).mpr hcarry⟩

/-- Sixty milliseconds are recorded as a second. -/
theorem statetime_inflated :
    ¬ ∀ pid s xs s', Reach Xinu.step AnyCalls Booted s → RecordRun pid s xs s' →
      (s.proctab pid).timestatein.OfClock → (∀ k ∈ counters, (s.counter pid k).ms < 60) →
      s'.totaltime pid = uint32 (s.totaltime pid +
        ((lastRecord (s.proctab pid).timestatein xs).millis -
          (s.proctab pid).timestatein.millis) +
        zeroIntervals (s.proctab pid).timestatein xs) := by
  intro hall
  rcases exists_reach_of_follow Xinu.step AnyCalls booted_sample (suspendedTicks 60)
    (fun s => FirstRecord s 60 ∧ s.totaltime 2 = 0 ∧ (s.recordCpuqdata 2).totaltime 2 = 1000)
    (by decide +kernel) with ⟨s, hs, h, hzero, hbad⟩
  have htotal := hall 2 s [s] _ hs h.run h.ofClock h.ms_lt
  rw [hbad, hzero] at htotal
  unfold lastRecord lastRecord zeroIntervals zeroIntervals at htotal
  rw [h.now, h.timestatein] at htotal
  exact absurd htotal (by decide)

end BbbXinu
