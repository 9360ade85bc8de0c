import BbbXinu.Invariant.EnvKept
import BbbXinu.Shell.Set

/-!
# The values of environment variables

A variable with named values is in range as long as the last value it was given
is, and {lit}`dblevel` starts out of range.  {lit}`setenv` takes any value:
{lit}`set` passes -1 for a number that is too large.
-/

namespace BbbXinu

open Runs

/-- The variable and the text of a {lit}`set` command that sets something. -/
def asked : List (List Char) → Option (Nat × List Char)
  | [_, name, eq, value] =>
      if strncmp eq ['='] 1 = 0 then
        (Shell.findvar name).map fun i => (i, copied value EV_MAX_VAL_LEN)
      else none
  | _ => none

/-- {lit}`set_scheduler` gives up when it finds the scratch list in use. -/
def Shell.refuses (t : Shell) (i : Nat) : Prop :=
  i = EV_SCHEDULER ∧ ¬ t.xinu.isempty scratchlist

instance (t : Shell) (i : Nat) : Decidable (t.refuses i) :=
  inferInstanceAs (Decidable (_ ∧ _))

/-- What the observer notes: the settings that were made, newest first. -/
def noteSet (h : List (Nat × List Char)) (t : Shell) (l : ShellCall) (_ : Shell) :
    List (Nat × List Char) :=
  match l with
  | .set args =>
      match asked args with
      | some a => if t.refuses a.1 then h else a :: h
      | none => h
  | _ => h

/-- The last text that a variable was set to. -/
def lastText (h : List (Nat × List Char)) (i : Nat) : Option (List Char) :=
  (h.find? fun a => a.1 = i).map Prod.snd

/-- The last value given to a variable is in range, and {lit}`dblevel` was given one. -/
def GivenInRange (h : List (Nat × List Char)) (i : Nat) : Prop :=
  match lastText h i with
  | some text => Shell.intval i text < (envvar i).valcount
  | none => i ≠ EV_DBLEVEL

/-- Every variable with named values has one of them. -/
def InRange (t : Shell) : Prop :=
  ∀ i < ENV_VARS, (envvar i).valcount ≠ 0 → t.val i < (envvar i).valcount

instance (t : Shell) : Decidable (InRange t) := by
  unfold InRange
  infer_instance

/-- When the variables are in range, and with them the uses of their values. -/
structure ValuesInRange (t : Shell) (h : List (Nat × List Char)) : Prop where
  all : InRange t ↔ ∀ i < ENV_VARS, (envvar i).valcount ≠ 0 → GivenInRange h i
  each : ∀ i < ENV_VARS, (envvar i).valcount ≠ 0 →
    (t.val i < (envvar i).valcount ↔ GivenInRange h i)
  /-- The first index that {lit}`record_cpuqdata` uses. -/
  recorded : t.val EV_SCHEDULER < QTYPE_VALS ↔ GivenInRange h EV_SCHEDULER
  /-- What {lit}`set` prints. -/
  printed : ∀ i < ENV_VARS, ∀ k, t.listed i = some k ∨ t.shown i = some k →
    k < (envvar i).valcount

/-- The scheduler is switched by {lit}`set` alone. -/
def SetCalls (_ : Shell) : ShellCall → Prop
  | .kernel (.call c) => c.isSetScheduler = false
  | _ => True

instance (t : Shell) (l : ShellCall) : Decidable (SetCalls t l) := by
  unfold SetCalls
  split <;> infer_instance

/-- The value of a variable after the given settings. -/
def givenVal (h : List (Nat × List Char)) (i : Nat) : Nat :=
  match lastText h i with
  | some text => Shell.setval i text
  | none =>
      match i with
      | 0 => ENV_VARS
      | 6 => 5
      | 8 => 0x7000
      | _ => 0

section

variable {t t' : Shell} {h : List (Nat × List Char)} {i j v : Nat} {text : List Char}

/-!
## The command
-/

theorem foldl_last {p : Nat → Prop} [DecidablePred p] {l : List Nat} {k : Nat} {init : Option Nat}
    (h : l.foldl (fun a i => if p i then some i else a) init = some k) : init = some k ∨ k ∈ l := by
  induction l generalizing init with
  | nil => exact Or.inl h
  | cons i l ih =>
      rcases ih h with hinit | hmem
      · dsimp only at hinit
        split at hinit
        · cases hinit
          exact Or.inr List.mem_cons_self
        · exact Or.inl hinit
      · exact Or.inr (List.mem_cons_of_mem i hmem)

/-- The command finds variables of the table only. -/
theorem findvar_lt {name : List Char} (h : Shell.findvar name = some i) : i < ENV_VARS := by
  unfold Shell.findvar at h
  rcases foldl_last h with hinit | hmem
  · cases hinit
  · exact List.mem_range.mp hmem

/-- What the command does is to set the variable that it asks for. -/
theorem xshSet_eq (t : Shell) (args : List (List Char)) :
    t.xshSet args =
      match asked args with
      | some a => t.setenv a.1 (Shell.setval a.1 a.2)
      | none => some t := by
  unfold Shell.xshSet
  split
  · rename_i name eq value
    show _ = match (if strncmp eq ['='] 1 = 0 then
      (Shell.findvar name).map fun i => (i, copied value EV_MAX_VAL_LEN) else none) with
      | some a => t.setenv a.1 (Shell.setval a.1 a.2)
      | none => some t
    by_cases heq : strncmp eq ['='] 1 = 0
    · rw [if_pos heq, if_pos heq]
      cases Shell.findvar name with
      | some i => rfl
      | none => rfl
    · rw [if_neg heq, if_neg heq]
  · rename_i hargs
    have hnone : asked args = none := by
      unfold asked
      split
      · exact absurd rfl (hargs _ _ _ _)
      · rfl
    rw [hnone]

theorem asked_lt {args : List (List Char)} {a : Nat × List Char} (h : asked args = some a) :
    a.1 < ENV_VARS := by
  unfold asked at h
  split at h
  · split at h
    · rcases Option.map_eq_some_iff.mp h with ⟨i, hi, rfl⟩
      exact findvar_lt hi
    · cases h
  · cases h

/-- A value is passed on unless it is out of range, and then it stays out of range. -/
theorem setval_lt (hi : i < ENV_VARS) :
    Shell.setval i text < (envvar i).valcount ↔ Shell.intval i text < (envvar i).valcount := by
  have hfew : (envvar i).valcount ≤ uint32 SYSERR := by
    have hall : ∀ i < ENV_VARS, (envvar i).valcount ≤ uint32 SYSERR := by decide
    exact hall i hi
  unfold Shell.setval
  dsimp only
  split
  · rename_i h
    constructor
    · intro hlt
      omega
    · intro hlt
      exact absurd hlt (Nat.not_lt.mpr h.2)
  · rfl

/-!
## Setters
-/

theorem val_setEnv (t : Shell) (s : Xinu) (hs : s.envtab = t.xinu.envtab) (i v j : Nat)
    (r : Int) : (t.setXinu ((s.setEnv i v).ret r)).val j = if j = i then v else t.val j := by
  show upd s.envtab i v j = _
  rw [upd_apply, hs]
  rfl

theorem val_same (hv : t.val i = v) (j : Nat) : t.val j = if j = i then v else t.val j := by
  split
  · rename_i hj
    rw [hj]
    exact hv
  · rfl

theorem setCpuqdata_val (t : Shell) (v j : Nat) :
    (t.setXinu (t.xinu.setCpuqdata v)).val j = if j = EV_CPUQDATA then v else t.val j := by
  unfold Xinu.setCpuqdata
  dsimp only
  split
  · split
    · have hrecord := (kept_recordAll Xinu.allPids t.xinu).envtab
      generalize Xinu.recordAll Xinu.allPids t.xinu = recorded at hrecord ⊢
      exact val_setEnv t recorded hrecord _ _ _ _
    · exact val_setEnv t t.xinu.clearCpuqdata rfl _ _ _ _
  · rename_i hsame
    exact val_same (not_not.mp hsame) j

theorem getmem_envtab (t : Shell) (n : Nat) : (t.getmem n).2.xinu.envtab = t.xinu.envtab := by
  unfold Shell.getmem
  dsimp only
  split <;> rfl

theorem initLoop_envtab (n tmp next : Nat) (t : Shell) :
    (Shell.cmdhistoryinitLoop n tmp next t).xinu = t.xinu := by
  induction n generalizing tmp next t with
  | zero => rfl
  | succ n ih =>
      unfold Shell.cmdhistoryinitLoop
      rw [ih]
      rfl

theorem cmdhistoryinit_envtab (t : Shell) : t.cmdhistoryinit.xinu.envtab = t.xinu.envtab := by
  unfold Shell.cmdhistoryinit
  dsimp only
  split
  · split
    · exact getmem_envtab t _
    · rw [initLoop_envtab]
      exact getmem_envtab t _
  · rfl

theorem freeStrings_envtab (n tmp : Nat) (t : Shell) :
    (Shell.freeStrings n tmp t).xinu.envtab = t.xinu.envtab := by
  induction n generalizing tmp t with
  | zero => rfl
  | succ n ih =>
      unfold Shell.freeStrings
      split
      · dsimp only
        rw [ih]
        split <;> rfl
      · rfl

theorem cmdhistorydel_envtab (t : Shell) : t.cmdhistorydel.xinu.envtab = t.xinu.envtab := by
  unfold Shell.cmdhistorydel
  split
  · exact freeStrings_envtab _ _ t
  · rfl

theorem setCmdhist_val (t : Shell) (v j : Nat) :
    (t.setCmdhist v).val j = if j = EV_CMDHIST then v else t.val j := by
  unfold Shell.setCmdhist
  dsimp only
  split
  · have hdel := cmdhistorydel_envtab t
    split
    · exact val_setEnv t _ ((cmdhistoryinit_envtab _).trans hdel) _ _ _ _
    · exact val_setEnv t _ hdel _ _ _ _
  · rename_i hsame
    exact val_same (not_not.mp hsame) j

theorem setDbgroup_val (t : Shell) (v j : Nat) :
    (t.setDbgroup v).val j = if j = EV_DBGROUP then v else t.val j := by
  unfold Shell.setDbgroup
  dsimp only
  split
  · exact val_setEnv t t.xinu rfl _ _ _ _
  · rename_i hsame
    exact val_same (not_not.mp hsame) j

theorem setDblevel_val (h : t.setDblevel v = some t') (j : Nat) :
    t'.val j = if j = EV_DBLEVEL then v else t.val j := by
  unfold Shell.setDblevel at h
  dsimp only at h
  split at h
  · split at h
    · cases h
    · cases h
      exact val_setEnv t t.xinu rfl _ _ _ _
  · rename_i hsame
    cases h
    exact val_same (not_not.mp hsame) j

theorem setScheduler_val (t : Shell) (v j : Nat) :
    (t.setXinu (t.xinu.setScheduler v)).val j =
      if j = EV_SCHEDULER ∧ t.xinu.isempty scratchlist then v else t.val j := by
  show (t.xinu.setScheduler v).envtab j = _
  rw [setScheduler_envtab]
  by_cases hempty : t.xinu.isempty scratchlist
  · rw [if_pos hempty, upd_apply]
    by_cases hj : j = EV_SCHEDULER
    · rw [if_pos hj, if_pos ⟨hj, hempty⟩]
    · rw [if_neg hj, if_neg fun h => hj h.1]
      rfl
  · rw [if_neg hempty, if_neg fun h => hempty h.2]
    rfl

/-- Every setter stores the value that it is given, whatever it is. -/
theorem setenv_val (hi : i < ENV_VARS) (h : t.setenv i v = some t') (j : Nat) :
    t'.val j = if j = i ∧ ¬ t.refuses i then v else t.val j := by
  have haccepts : i ≠ EV_SCHEDULER → t'.val j = (if j = i then v else t.val j) →
      t'.val j = if j = i ∧ ¬ t.refuses i then v else t.val j := by
    intro hne hval
    rw [hval]
    by_cases hj : j = i
    · rw [if_pos hj, if_pos ⟨hj, fun hr => hne hr.1⟩]
    · rw [if_neg hj, if_neg fun h => hj h.1]
  unfold Shell.setenv at h
  rw [if_neg (Nat.not_le.mpr hi)] at h
  split at h
  · rename_i hsched
    cases h
    rw [setScheduler_val]
    by_cases hempty : t.xinu.isempty scratchlist
    · have hno : ¬ t.refuses i := fun hr => hr.2 hempty
      by_cases hj : j = i
      · rw [if_pos ⟨hj.trans hsched, hempty⟩, if_pos ⟨hj, hno⟩]
      · rw [if_neg fun h => hj (h.1.trans hsched.symm), if_neg fun h => hj h.1]
    · have hyes : t.refuses i := ⟨hsched, hempty⟩
      rw [if_neg fun h => hempty h.2, if_neg fun h => h.2 hyes]
  · rename_i hsched
    apply haccepts hsched
    split at h
    · rename_i hcpu
      cases h
      rw [hcpu]
      exact setCpuqdata_val t v j
    · split at h
      · rename_i hhist
        cases h
        rw [hhist]
        exact setCmdhist_val t v j
      · split at h
        · rename_i hgroup
          cases h
          rw [hgroup]
          exact setDbgroup_val t v j
        · split at h
          · rename_i hlevel
            rw [hlevel]
            exact setDblevel_val h j
          · cases h
            exact val_setEnv t t.xinu rfl _ _ _ _

/-!
## Runs
-/

theorem cmdhistoryadd_envtab (t : Shell) (buf : List Char) (len : Nat) :
    (t.cmdhistoryadd buf len).xinu.envtab = t.xinu.envtab := by
  have hbump : ∀ n tmp new (t : Shell), (Shell.bump n tmp new t).2.xinu = t.xinu := by
    intro n
    induction n with
    | zero => exact fun _ _ _ => rfl
    | succ n ih =>
        intro tmp new t
        unfold Shell.bump
        split
        · dsimp only
          rw [ih]
          rfl
        · rfl
  have hcmd : ((t.getmem (uint32 (len + 1))).2.setStr (t.getmem (uint32 (len + 1))).1
      (cstring (buf.take len))).xinu.envtab = t.xinu.envtab := getmem_envtab t _
  unfold Shell.cmdhistoryadd
  dsimp only
  split
  · show (Shell.bump _ _ _ _).2.xinu.envtab = _
    exact (congrArg Xinu.envtab (hbump _ _ _ _)).trans hcmd
  · exact (congrArg Xinu.envtab (hbump _ _ _ _)).trans hcmd

theorem lastText_cons (a : Nat × List Char) (h : List (Nat × List Char)) (j : Nat) :
    lastText (a :: h) j = if a.1 = j then some a.2 else lastText h j := by
  unfold lastText
  rw [List.find?_cons]
  by_cases hj : a.1 = j
  · rw [if_pos hj, decide_eq_true hj]
    rfl
  · rw [if_neg hj, decide_eq_false hj]

theorem givenVal_cons (a : Nat × List Char) (h : List (Nat × List Char)) (j : Nat) :
    givenVal (a :: h) j = if j = a.1 then Shell.setval j a.2 else givenVal h j := by
  unfold givenVal
  rw [lastText_cons]
  by_cases hj : a.1 = j
  · rw [if_pos hj, if_pos hj.symm]
  · rw [if_neg hj, if_neg fun h => hj h.symm]

/-- Each variable has the value that it was given last. -/
def Given (t : Shell) (h : List (Nat × List Char)) : Prop :=
  ∀ i < ENV_VARS, t.val i = givenVal h i

theorem given_boot (ht : Booted t.xinu) : Given t [] := by
  rcases ht with ⟨mem, rand, hs⟩
  have henv : t.xinu.envtab = (Xinu.image mem rand).initNull.envtab := by
    rw [hs]
    exact (sysinit_booting mem rand).base.envtab
  have hall : ∀ i < ENV_VARS, (Xinu.image mem rand).initNull.envtab i = givenVal [] i := by
    intro i hi
    match i with
    | 0 | 1 | 2 | 3 | 4 | 5 | 6 | 7 | 8 => rfl
    | i + 9 => exact absurd hi (Nat.not_lt.mpr (Nat.le_add_left 9 i))
  intro i hi
  unfold Shell.val
  rw [henv]
  exact hall i hi

theorem Given.same (hG : Given t h) (henv : t'.xinu.envtab = t.xinu.envtab) : Given t' h := by
  intro i hi
  unfold Shell.val
  rw [henv]
  exact hG i hi

theorem Given.set (hG : Given t h) {args : List (List Char)} (hstep : t.xshSet args = some t') :
    Given t' (noteSet h t (.set args) t') := by
  rw [xshSet_eq] at hstep
  show Given t' (match asked args with
    | some a => if t.refuses a.1 then h else a :: h
    | none => h)
  cases hasked : asked args with
  | none =>
      rw [hasked] at hstep
      cases hstep
      exact hG
  | some a =>
      rw [hasked] at hstep
      have hval := setenv_val (asked_lt hasked) hstep
      dsimp only
      split
      · rename_i hrefuses
        intro i hi
        rw [hval, if_neg fun h => h.2 hrefuses]
        exact hG i hi
      · rename_i haccepts
        intro i hi
        rw [hval, givenVal_cons]
        by_cases hia : i = a.1
        · rw [if_pos ⟨hia, haccepts⟩, if_pos hia, hia]
        · rw [if_neg fun h => hia h.1, if_neg hia]
          exact hG i hi

theorem Given.step (hG : Given t h) {l : ShellCall} (henv : SetCalls t l)
    (hstep : t.step l = some t') : Given t' (noteSet h t l t') := by
  cases l with
  | set args =>
      change (if t.inUser then t.xshSet args else none) = some t' at hstep
      split at hstep
      · exact hG.set hstep
      · cases hstep
  | add buf =>
      change (if t.inUser then some (t.cmdhistoryadd buf buf.length) else none) = some t' at hstep
      split at hstep
      · cases hstep
        exact hG.same (cmdhistoryadd_envtab t buf _)
      · cases hstep
  | kernel l =>
      rcases Option.map_eq_some_iff.mp hstep with ⟨s, hs, rfl⟩
      apply hG.same
      apply step_envtab _ hs
      rintro n rfl
      cases henv
  | heap c =>
      rcases Option.map_eq_some_iff.mp hstep with ⟨m, _, rfl⟩
      exact hG.same rfl

/-- A given value is in range when the text stands for one that is. -/
theorem givenVal_lt (hi : i < ENV_VARS) (hcount : (envvar i).valcount ≠ 0) :
    givenVal h i < (envvar i).valcount ↔ GivenInRange h i := by
  unfold givenVal GivenInRange
  cases lastText h i with
  | some text => exact setval_lt hi
  | none =>
      have hall : ∀ i < ENV_VARS, (envvar i).valcount ≠ 0 →
          (givenVal [] i < (envvar i).valcount ↔ i ≠ EV_DBLEVEL) := by decide
      exact hall i hi hcount

/-- A given value is never the number of named values itself. -/
theorem givenVal_ne (hi : i < ENV_VARS) (hcount : (envvar i).valcount ≠ 0) :
    givenVal h i ≠ (envvar i).valcount := by
  unfold givenVal
  cases lastText h i with
  | none =>
      have hall : ∀ i < ENV_VARS, (envvar i).valcount ≠ 0 →
          givenVal [] i ≠ (envvar i).valcount := by decide
      exact hall i hi hcount
  | some text =>
      have hfew : (envvar i).valcount ≠ uint32 SYSERR := by
        have hall : ∀ i < ENV_VARS, (envvar i).valcount ≠ uint32 SYSERR := by decide
        exact hall i hi
      dsimp only
      unfold Shell.setval
      dsimp only
      split
      · exact hfew.symm
      · rename_i hin
        intro he
        exact hin ⟨hcount, Nat.le_of_eq he.symm⟩

/-- In every run the variables are in range exactly as the last values given to them are. -/
theorem values_in_range {t : Shell × List (Nat × List Char)}
    (h : Reach (observed Shell.step noteSet) (fun t => SetCalls t.1)
      (fun t => Booted t.1.xinu ∧ t.2 = []) t) : ValuesInRange t.1 t.2 := by
  have hG : Given t.1 t.2 := by
    apply h.invariant
    · rintro t ⟨hboot, hnil⟩
      rw [hnil]
      exact given_boot hboot
    · intro t l t' _ hG henv hstep
      rcases observed_eq hstep with ⟨hs, hrecord⟩
      rw [hrecord]
      exact hG.step henv hs
  have heach : ∀ i < ENV_VARS, (envvar i).valcount ≠ 0 →
      (t.1.val i < (envvar i).valcount ↔ GivenInRange t.2 i) := by
    intro i hi hcount
    rw [hG i hi]
    exact givenVal_lt hi hcount
  constructor
  · constructor
    · exact fun hall i hi hcount => (heach i hi hcount).mp (hall i hi hcount)
    · exact fun hall i hi hcount => (heach i hi hcount).mpr (hall i hi hcount)
  · exact heach
  · exact heach EV_SCHEDULER (by decide) (by decide)
  · intro i hi k hk
    rcases hk with hk | hk
    · unfold Shell.listed at hk
      dsimp only at hk
      split at hk
      · cases hk
      · rename_i hcount
        split at hk
        · cases hk
        · rename_i hle
          cases hk
          have hne := givenVal_ne (h := t.2) hi (by omega)
          rw [← hG i hi] at hne
          omega
    · unfold Shell.shown at hk
      dsimp only at hk
      split at hk
      · rename_i hlt
        cases hk
        exact hlt.2
      · cases hk

end

/-- Commands to run examples with. -/
def setCommand (name value : String) : ShellCall :=
  .set ["set".toList, name.toList, "=".toList, value.toList]

/-- A shell in the state that the system starts in. -/
def sampleShell : Shell where
  xinu := sampleBoot
  debugMask := DEBUG_MASK
  cmdhistory := NULL
  node := fun _ => { str := NULL, prev := NULL, next := NULL }
  str := fun _ => []
  memcalls := []
  held := []

theorem values_in_range_named :
    ∃ t : Shell × List (Nat × List Char), (t.1.val EV_SCHEDULER = 2 ∧ InRange t.1) ∧
      ValuesInRange t.1 t.2 := by
  have hrun : ∃ t, Reach (observed Shell.step noteSet) (fun t => SetCalls t.1)
      (fun t => Booted t.1.xinu ∧ t.2 = []) t ∧ (t.1.val EV_SCHEDULER = 2 ∧ InRange t.1) :=
    exists_reach_of_follow (observed Shell.step noteSet) (fun t => SetCalls t.1)
      (s := (sampleShell, [])) (by exact ⟨booted_sample, rfl⟩)
      [setCommand "scheduler" "7", setCommand "dblevel" "verbose", setCommand "scheduler" "random"]
      (fun t => t.1.val EV_SCHEDULER = 2 ∧ InRange t.1) (by decide +kernel)
  rcases hrun with ⟨t, ht, hp⟩
  exact ⟨t, hp, values_in_range ht⟩

/-- The number 3 is passed on as -1, and {lit}`set_scheduler` stores it. -/
theorem scheduler_out_of_range :
    ¬ ∀ t : Shell × List (Nat × List Char),
      Reach (observed Shell.step noteSet) (fun t => SetCalls t.1)
        (fun t => Booted t.1.xinu ∧ t.2 = []) t → InRange t.1 := by
  intro hall
  have hrun : ∃ t, Reach (observed Shell.step noteSet) (fun t => SetCalls t.1)
      (fun t => Booted t.1.xinu ∧ t.2 = []) t ∧ ¬ InRange t.1 :=
    exists_reach_of_follow (observed Shell.step noteSet) (fun t => SetCalls t.1)
      (s := (sampleShell, [])) (by exact ⟨booted_sample, rfl⟩)
      [setCommand "dblevel" "info", setCommand "scheduler" "3"]
      (fun t => ¬ InRange t.1) (by decide +kernel)
  rcases hrun with ⟨t, ht, hout⟩
  exact hout (hall t ht)

end BbbXinu
