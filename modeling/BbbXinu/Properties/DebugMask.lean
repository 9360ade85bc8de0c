import BbbXinu.Properties.EnvValues

/-!
# The debug mask

The four highest bits of {lit}`debug_mask` are the level and the other twelve the
group.  {lit}`set_dblevel` shifts the bit of each level one place too far, and runs on
forever for the value that the {lit}`set` command hands it for text that is no level.
-/

namespace BbbXinu

namespace Shell

/-- The {lit}`set` command can hand this value to {lit}`set_dblevel`. -/
def Handed (newval : Nat) : Prop :=
  ∃ value, setval EV_DBLEVEL (copied value EV_MAX_VAL_LEN) = newval

/-- The bits of all levels up to the given one. -/
def levelBits (newval : Nat) : Nat := 2 ^ min newval 4 - 1

/-- The bits of a group. -/
def groupBits : Nat → Nat
  | 0 => 0x000
  | 1 => 0x001
  | 2 => 0x002
  | 3 => 0x004
  | 4 => 0x008
  | _ => 0xFFF

/-- {lit}`set_dblevel` ends, sets the level and keeps the group. -/
structure SetsLevel (t : Shell) (newval : Nat) : Prop where
  ends : ∃ t', t.setDblevel newval = some t'
  level : ∀ t', t.setDblevel newval = some t' → t'.debugMask / 0x1000 = levelBits newval
  group : ∀ t', t.setDblevel newval = some t' → t'.debugMask % 0x1000 = t.debugMask % 0x1000

/-- {lit}`set_dbgroup` sets the group and keeps the level. -/
structure SetsGroup (t : Shell) (newval : Nat) : Prop where
  group : (t.setDbgroup newval).debugMask % 0x1000 = groupBits newval
  level : (t.setDbgroup newval).debugMask / 0x1000 = t.debugMask / 0x1000

/-- What {lit}`lvlmask` is computed by: the loop of {lit}`set_dblevel` with its 32-bit
variable, from {lit}`i` on and for a number of rounds. -/
def lvlLoop (newval : Nat) : Nat → Nat → Nat → Option Nat
  | 0, _, _ => none
  | n + 1, i, mask =>
      if i ≤ newval then
        lvlLoop newval n (uint32 (i + 1 : Nat)) (uint16 (mask + DEBUG_L1 * 2 ^ i : Nat))
      else some mask

end Shell

open Shell

section

variable {t : Shell} {newval m n i mask : Nat}

/-!
## The loop
-/

theorem lvlLoop_from (hlt : newval < 4294967295) (k : Nat) (hi : i + k = newval) :
    lvlLoop newval (k + 1) (i + 1) (lvlmask i) = some (lvlmask newval) := by
  induction k generalizing i with
  | zero =>
      unfold lvlLoop
      rw [if_neg (by omega), show i = newval by omega]
  | succ k ih =>
      have hnext : uint32 (i + 1 + 1 : Nat) = i + 1 + 1 := by
        unfold uint32
        omega
      unfold lvlLoop
      rw [if_pos (by omega), hnext]
      exact ih (by omega)

theorem lvlLoop_ends (hlt : newval < 4294967295) :
    lvlLoop newval (newval + 1) 1 0 = some (lvlmask newval) :=
  lvlLoop_from hlt newval (Nat.zero_add newval)

/-- No 32-bit number is above the largest one. -/
theorem lvlLoop_runs (n : Nat) (hi : i < 4294967296) (mask : Nat) :
    lvlLoop (uint32 SYSERR) n i mask = none := by
  induction n generalizing i mask with
  | zero => rfl
  | succ n ih =>
      have hle : i ≤ uint32 SYSERR := by
        unfold uint32 SYSERR
        omega
      unfold lvlLoop
      rw [if_pos hle]
      apply ih
      unfold uint32
      omega

/-- {lit}`set_dblevel` returns if it has nothing to do or the loop ends, and then the loop has
computed the mask. -/
theorem setDblevel_returns (h : newval < 4294967296) :
    (∃ t', t.setDblevel newval = some t') ↔
      t.val EV_DBLEVEL = newval ∨ ∃ n, lvlLoop newval n 1 0 = some (lvlmask newval) := by
  unfold setDblevel
  dsimp only
  by_cases hval : t.val EV_DBLEVEL = newval
  · rw [if_neg (not_not.mpr hval)]
    exact iff_of_true ⟨_, rfl⟩ (Or.inl hval)
  · rw [if_pos hval]
    by_cases hmax : newval = uint32 SYSERR
    · rw [if_pos hmax]
      constructor
      · intro hsome
        rcases hsome with ⟨t', hsome⟩
        cases hsome
      · intro hends
        rcases hends.resolve_left hval with ⟨n, hn⟩
        rw [hmax, lvlLoop_runs n (by decide) 0] at hn
        cases hn
    · rw [if_neg hmax]
      have hlt : newval < 4294967295 := by
        unfold uint32 SYSERR at hmax
        omega
      exact iff_of_true ⟨_, rfl⟩ (Or.inr ⟨_, lvlLoop_ends hlt⟩)

/-!
## Bits
-/

theorem and_all (m : Nat) : m &&& DEBUG_ALL = m % 0x1000 := Nat.and_two_pow_sub_one_eq_mod m 12

theorem and_verbose (hm : m < 0x10000) : m &&& DEBUG_VERBOSE = m - m % 0x1000 := by
  have hmul : (m &&& DEBUG_VERBOSE) % 0x1000 = 0 := by
    rw [← and_all, Nat.and_assoc]
    exact Nat.and_zero m
  have hor : (m &&& DEBUG_VERBOSE) ||| m % 0x1000 = m := by
    rw [← and_all, ← Nat.and_or_distrib_left]
    exact (Nat.and_two_pow_sub_one_eq_mod m 16).trans (Nat.mod_eq_of_lt hm)
  have hlow : m % 0x1000 < 2 ^ 12 := Nat.mod_lt m (by decide)
  generalize m &&& DEBUG_VERBOSE = h at hmul hor ⊢
  have hadd := Nat.two_pow_add_eq_or_of_lt hlow (h / 0x1000)
  have hh : 2 ^ 12 * (h / 0x1000) = h := Nat.mul_div_cancel' (Nat.dvd_of_mod_eq_zero hmul)
  rw [hh, hor] at hadd
  omega

/-- A level and a group. -/
theorem or_bits {a b : Nat} (hb : b < 0x1000) : 0x1000 * a ||| b = 0x1000 * a + b :=
  have hlt : b < 2 ^ 12 := hb
  (Nat.two_pow_add_eq_or_of_lt hlt a).symm

/-- The loop adds up the bits of the levels above the first one and up to the next one. -/
theorem lvlmask_eq (newval : Nat) : lvlmask newval = 0x1000 * (2 ^ (min newval 3 + 1) - 2) := by
  induction newval with
  | zero => rfl
  | succ n ih =>
      unfold lvlmask
      rw [ih]
      match n with
      | 0 => rfl
      | 1 => rfl
      | 2 => rfl
      | n + 3 =>
          have hpow : (2 : Int) ^ (n + 3 + 1) = 16 * 2 ^ n := by
            rw [Nat.add_assoc, Int.pow_add, Int.mul_comm]
            rfl
          rw [hpow, Nat.min_eq_right (by omega), Nat.min_eq_right (by omega)]
          unfold uint16 DEBUG_L1
          omega

theorem grpmask_eq (newval : Nat) : grpmask newval = groupBits newval := by
  unfold grpmask DBGROUP_STRNUM
  match newval with
  | 0 => rfl
  | 1 => rfl
  | 2 => rfl
  | 3 => rfl
  | 4 => rfl
  | n + 5 =>
      rw [if_pos (by omega), if_pos (by omega)]
      rfl

theorem groupBits_lt (newval : Nat) : groupBits newval < 0x1000 := by
  match newval with
  | 0 => decide
  | 1 => decide
  | 2 => decide
  | 3 => decide
  | 4 => decide
  | n + 5 => exact Nat.lt_succ_self _

/-!
## The two setters
-/

theorem setDbgroup_same (h : t.val EV_DBGROUP = newval) :
    (t.setDbgroup newval).debugMask = t.debugMask := by
  unfold setDbgroup
  dsimp only
  rw [if_neg (not_not.mpr h)]
  rfl

theorem setDbgroup_mask (h : t.val EV_DBGROUP ≠ newval) :
    (t.setDbgroup newval).debugMask =
      0x1000 * (t.debugMask / 0x1000) + groupBits newval := by
  have hhigh : t.debugMask - t.debugMask % 0x1000 = 0x1000 * (t.debugMask / 0x1000) := by omega
  unfold setDbgroup
  dsimp only
  rw [if_pos h]
  change t.debugMask - (t.debugMask &&& DEBUG_ALL) ||| grpmask newval = _
  rw [and_all, hhigh, grpmask_eq, or_bits (groupBits_lt newval)]

/-- {lit}`set_dbgroup` is right for all values, unless the bits already differ from what the
present value says. -/
theorem sets_every_group_iff :
    (∀ g, SetsGroup t g) ↔ t.debugMask % 0x1000 = groupBits (t.val EV_DBGROUP) := by
  constructor
  · intro h
    rw [← (h (t.val EV_DBGROUP)).group, setDbgroup_same rfl]
  · intro hbits g
    by_cases hg : t.val EV_DBGROUP = g
    · rw [hg] at hbits
      constructor
      · rw [setDbgroup_same hg]
        exact hbits
      · rw [setDbgroup_same hg]
    · have hlt := groupBits_lt g
      constructor
      · rw [setDbgroup_mask hg]
        omega
      · rw [setDbgroup_mask hg]
        omega

theorem setDblevel_same (h : t.val EV_DBLEVEL = newval) :
    ∃ t', t.setDblevel newval = some t' ∧ t'.debugMask = t.debugMask := by
  unfold setDblevel
  dsimp only
  rw [if_neg (not_not.mpr h)]
  exact ⟨_, rfl, rfl⟩

theorem setDblevel_mask (hmask : t.debugMask < 0x10000) (h : t.val EV_DBLEVEL ≠ newval)
    (hmax : newval ≠ uint32 SYSERR) : ∃ t', t.setDblevel newval = some t' ∧
      t'.debugMask = 0x1000 * (2 ^ (min newval 3 + 1) - 2) + t.debugMask % 0x1000 := by
  have hlow : t.debugMask - (t.debugMask - t.debugMask % 0x1000) = t.debugMask % 0x1000 := by omega
  unfold setDblevel
  dsimp only
  rw [if_pos h, if_neg hmax]
  refine ⟨_, rfl, ?_⟩
  change t.debugMask - (t.debugMask &&& DEBUG_VERBOSE) ||| lvlmask newval = _
  rw [and_verbose hmask, hlow, lvlmask_eq, Nat.or_comm, or_bits (Nat.mod_lt _ (by decide))]

theorem setDblevel_none (h : t.val EV_DBLEVEL ≠ uint32 SYSERR) :
    t.setDblevel (uint32 SYSERR) = none := by
  unfold setDblevel
  dsimp only
  rw [if_pos h, if_pos rfl]

/-- One place too far, the lowest level bit is never set, and it belongs to every level but
the lowest. -/
theorem level_shifted (newval : Nat) :
    2 ^ (min newval 3 + 1) - 2 = levelBits newval ↔ newval = 0 := by
  unfold levelBits
  cases newval with
  | zero => exact iff_of_true rfl rfl
  | succ n =>
      have hpos : 0 < 2 ^ min n 3 := Nat.two_pow_pos _
      refine iff_of_false ?_ (Nat.succ_ne_zero n)
      rw [Nat.add_min_add_right n 3 1, Nat.pow_succ, Nat.pow_succ]
      omega

/-!
## The exact condition
-/

/-- The mask is right after {lit}`set_dblevel` if and only if it was right and nothing is to be
done, or the new level is none; after {lit}`set_dbgroup` it is right if the group was. -/
theorem debug_mask_iff (hmask : t.debugMask < 0x10000) :
    (SetsLevel t newval ∧ ∀ g, SetsGroup t g) ↔
      (if t.val EV_DBLEVEL = newval then t.debugMask / 0x1000 = levelBits newval
        else newval = 0) ∧
      t.debugMask % 0x1000 = groupBits (t.val EV_DBGROUP) := by
  apply and_congr _ sets_every_group_iff
  by_cases hval : t.val EV_DBLEVEL = newval
  · rw [if_pos hval]
    rcases setDblevel_same hval with ⟨t', ht', hsame⟩
    constructor
    · intro h
      rw [← hsame]
      exact h.level t' ht'
    · intro hlevel
      rw [← hsame] at hlevel
      constructor
      · exact ⟨t', ht'⟩
      · intro t'' ht''
        rw [ht'] at ht''
        cases ht''
        exact hlevel
      · intro t'' ht''
        rw [ht'] at ht''
        cases ht''
        rw [hsame]
  · rw [if_neg hval, ← level_shifted]
    by_cases hmax : newval = uint32 SYSERR
    · rw [hmax] at hval ⊢
      constructor
      · intro h
        rcases h.ends with ⟨t', ht'⟩
        rw [setDblevel_none hval] at ht'
        cases ht'
      · intro hlevel
        exact absurd ((level_shifted _).mp hlevel) (by decide)
    · rcases setDblevel_mask hmask hval hmax with ⟨t', ht', hnew⟩
      have hmod : t.debugMask % 0x1000 < 0x1000 := Nat.mod_lt _ (by decide)
      constructor
      · intro h
        have hlevel := h.level t' ht'
        omega
      · intro hlevel
        constructor
        · exact ⟨t', ht'⟩
        · intro t'' ht''
          rw [ht'] at ht''
          cases ht''
          omega
        · intro t'' ht''
          rw [ht'] at ht''
          cases ht''
          omega

end

/-- The values of the names, and one for all other text. -/
theorem Shell.Handed.cases {newval : Nat} (h : Handed newval) :
    newval < DBLEVEL_STRNUM ∨ newval = uint32 SYSERR := by
  rcases h with ⟨value, rfl⟩
  unfold setval
  dsimp only
  split
  · exact Or.inr rfl
  · rename_i hin
    rcases not_and_or.mp hin with hnone | hlt
    · exact absurd (show (envvar EV_DBLEVEL).valcount ≠ 0 by decide) hnone
    · exact Or.inl (Nat.lt_of_not_le hlt)

/-- To no level. -/
theorem debug_mask_none : SetsLevel sampleShell 0 ∧ ∀ g, SetsGroup sampleShell g :=
  (debug_mask_iff (by decide)).mpr ⟨by decide +kernel, by decide +kernel⟩

/-- To {lit}`error`: the bit of {lit}`warning` is set and not that of {lit}`error`. -/
theorem debug_mask_error :
    ¬ ∀ (t : Shell) (newval : Nat), t.debugMask < 0x10000 → Handed newval →
      SetsLevel t newval ∧ ∀ g, SetsGroup t g := by
  intro hall
  have hgiven : Handed 1 := ⟨"error".toList, by decide⟩
  have hlevel := (hall sampleShell 1 (by decide) hgiven).1.level
  rcases setDblevel_mask (t := sampleShell) (by decide) (show _ ≠ 1 by decide +kernel)
    (by decide) with ⟨t', ht', hmask⟩
  have hbits := hlevel t' ht'
  rw [hmask] at hbits
  exact absurd hbits (by decide)

end BbbXinu
