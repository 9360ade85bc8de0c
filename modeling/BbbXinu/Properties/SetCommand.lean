import BbbXinu.Properties.EnvValues
import BbbXinu.Properties.Numerals

/-!
# The set command

{lit}`set` gives a variable the value that is meant, if the text of the value fits into
its buffer.  It takes any other text as well, for 0 or for -1, and never reports
an error.
-/

namespace BbbXinu

namespace Shell

/-- The numbers below this one are the range of a variable. -/
def valueRange (i : Nat) : Nat :=
  if (envvar i).valcount ≠ 0 then (envvar i).valcount
  else if i = EV_CMDHIST then CMDHIST_MAX + 1
  else 4294967296

/-- The variable of this name. -/
def Known (name : List Char) (i : Nat) : Prop := i < ENV_VARS ∧ (envvar i).name = cstring name

instance (name : List Char) (i : Nat) : Decidable (Known name i) :=
  inferInstanceAs (Decidable (_ ∧ _))

/-- The text is the name of a value, or a number in range. -/
def Meant (i : Nat) (text : List Char) (v : Nat) : Prop :=
  (envvar i).vals[v]? = some text ∨ (numeral text = some (v : Int) ∧ v < valueRange i)

/-- The arguments of {lit}`set name = value`. -/
def setArgs (name value : List Char) : List (List Char) := ["set".toList, name, ['='], value]

/-- The {lit}`set` command with its status: it returns {lit}`OK` in both places where it
returns. -/
def xshSetStatus (t : Shell) (args : List (List Char)) : Option (Shell × Int) :=
  (t.xshSet args).map fun t => (t, OK)

/-- The variables and what they control are the same. -/
structure Untouched (t t' : Shell) : Prop where
  envtab : t'.xinu.envtab = t.xinu.envtab
  prprio : ∀ p, (t'.xinu.proctab p).prprio = (t.xinu.proctab p).prprio
  queuetab : t'.xinu.queuetab = t.xinu.queuetab
  cmdhistory : t'.cmdhistory = t.cmdhistory
  node : t'.node = t.node
  str : t'.str = t.str
  debugMask : t'.debugMask = t.debugMask

/-- The command sets the variable to the value that is meant, or does nothing and reports
an error. -/
structure AllOrNothing (t : Shell) (name value : List Char) : Prop where
  sets : ∀ i v, Known name i → Meant i (cstring value) v →
    ∃ t', t.xshSetStatus (setArgs name value) = some (t', OK) ∧ t'.val i = v ∧
      ∀ j, j ≠ i → t'.val j = t.val j
  rejects : (¬ ∃ i v, Known name i ∧ Meant i (cstring value) v) →
    ∃ t' status, t.xshSetStatus (setArgs name value) = some (t', status) ∧ status ≠ OK ∧
      Untouched t t'

end Shell

open Shell

section

variable {t t' : Shell} {name value text : List Char} {i v n : Nat}

/-!
## Names
-/

theorem foldl_missed {α : Type} {p : Nat → Prop} [DecidablePred p] {l : List Nat} {a : α}
    {f : Nat → α} (hnone : ∀ j ∈ l, ¬ p j) :
    l.foldl (fun a j => if p j then f j else a) a = a := by
  induction l with
  | nil => rfl
  | cons j l ih =>
      rw [List.foldl_cons, if_neg (hnone j List.mem_cons_self)]
      exact ih fun k hk => hnone k (List.mem_cons_of_mem j hk)

theorem foldl_found {p : Nat → Prop} [DecidablePred p] {l : List Nat} {init : Option Nat}
    (hone : ∀ j ∈ l, p j → j = i) (hmem : i ∈ l) (hp : p i) :
    l.foldl (fun a j => if p j then some j else a) init = some i := by
  induction l generalizing init with
  | nil => cases hmem
  | cons j l ih =>
      have hrest : ∀ k ∈ l, p k → k = i := fun k hk => hone k (List.mem_cons_of_mem j hk)
      rw [List.foldl_cons]
      by_cases hl : i ∈ l
      · exact ih hrest hl
      · have hij : i = j := (List.mem_cons.mp hmem).resolve_right hl
        rw [if_pos (hij ▸ hp), ← hij]
        exact foldl_missed fun k hk hpk => hl (hrest k hk hpk ▸ hk)

theorem names_short : ∀ i < ENV_VARS, (envvar i).name.length < EV_MAX_NAME_LEN ∧
    cstring (envvar i).name = (envvar i).name := by decide

theorem names_ne : ∀ i < ENV_VARS, ∀ j < ENV_VARS, (envvar i).name = (envvar j).name → i = j := by
  decide

theorem strncmp_name (hi : i < ENV_VARS) :
    strncmp (envvar i).name name EV_MAX_NAME_LEN = 0 ↔ (envvar i).name = cstring name := by
  rcases names_short i hi with ⟨hshort, hplain⟩
  rw [strncmp_eq_zero, hplain, List.take_of_length_le (Nat.le_of_lt hshort)]
  constructor
  · intro heq
    have hlen := congrArg List.length heq
    rw [List.length_take] at hlen
    rw [heq, List.take_of_length_le (by omega)]
  · intro heq
    rw [← heq, List.take_of_length_le (Nat.le_of_lt hshort)]

/-- The command finds the variable of a name. -/
theorem Shell.Known.findvar (h : Known name i) : Shell.findvar name = some i := by
  unfold Shell.findvar
  apply foldl_found
  · intro j hj hname
    have hlt := List.mem_range.mp hj
    exact names_ne j hlt i h.1 (((strncmp_name hlt).mp hname).trans h.2.symm)
  · exact List.mem_range.mpr h.1
  · exact (strncmp_name h.1).mpr h.2

theorem Shell.Known.unique {j : Nat} (h : Known name i) (h' : Known name j) : i = j :=
  names_ne i h.1 j h'.1 (h.2.trans h'.2.symm)

/-!
## Values
-/

/-- Every name of a value stands for it. -/
theorem setval_names : ∀ i < ENV_VARS, ∀ v < (envvar i).valcount,
    setval i (copied ((envvar i).vals.getD v []) EV_MAX_VAL_LEN) = v := by decide

theorem vals_plain : ∀ i < ENV_VARS, ∀ v < (envvar i).valcount,
    ((envvar i).vals.getD v []).length < EV_MAX_VAL_LEN ∧
      'a' ≤ ((envvar i).vals.getD v []).headD NULLCH := by decide

/-- Apart from names the command takes what {lit}`atol` reads. -/
theorem intval_eq (hi : i < ENV_VARS) (hhead : ¬ 'a' ≤ text.headD NULLCH) :
    intval i text = uint32 (atol text) := by
  unfold intval
  dsimp only
  split
  · apply foldl_missed
    intro k hk hzero
    have hletter := (vals_plain i hi k (List.mem_range.mp hk)).2
    rw [← headD_eq_of_strncmp hzero] at hletter
    exact hhead hletter
  · rfl

theorem setval_eq (hi : i < ENV_VARS) (hhead : ¬ 'a' ≤ text.headD NULLCH)
    (hlt : uint32 (atol text) < valueRange i) : setval i text = uint32 (atol text) := by
  unfold setval
  dsimp only
  rw [intval_eq hi hhead, if_neg]
  rintro ⟨hcount, hle⟩
  unfold valueRange at hlt
  rw [if_pos hcount] at hlt
  omega

theorem valueRange_le (hi : i < ENV_VARS) : valueRange i ≤ 4294967296 := by
  have hall : ∀ i < ENV_VARS, valueRange i ≤ 4294967296 := by decide
  exact hall i hi

theorem headD_take (text : List Char) (n : Nat) (h : ¬ 'a' ≤ text.headD NULLCH) :
    ¬ 'a' ≤ (text.take n).headD NULLCH := by
  cases n with
  | zero =>
      change ¬ 'a' ≤ NULLCH
      decide
  | succ n =>
      cases text with
      | nil => exact h
      | cons c text => exact h

/-- What is meant is what is passed to {lit}`setenv`, if the text is not cut off. -/
theorem setval_meant (hi : i < ENV_VARS) (h : Meant i (cstring value) v)
    (hshort : (cstring value).length < EV_MAX_VAL_LEN) :
    setval i (copied value EV_MAX_VAL_LEN) = v := by
  have hcopied : copied value EV_MAX_VAL_LEN = cstring value :=
    List.take_of_length_le (Nat.le_sub_one_of_lt hshort)
  rcases h with hname | ⟨hnum, hlt⟩
  · have hv : v < (envvar i).valcount := (List.getElem?_eq_some_iff.mp hname).1
    have hnames := setval_names i hi v hv
    rw [List.getD_eq_getElem?_getD, hname] at hnames
    unfold copied at hnames hcopied ⊢
    rw [hcopied]
    rw [Option.getD_some, cstring_cstring, hcopied] at hnames
    exact hnames
  · have hbound := valueRange_le hi
    have hread := atol_numeral hnum (by omega)
    have hhead : ¬ 'a' ≤ (cstring value).headD NULLCH :=
      numeral_head (by rw [hnum]; exact Option.some_ne_none _)
    rw [hcopied, setval_eq hi hhead (hread.symm ▸ hlt), hread]

/-- Of a number that is cut off at most a tenth is passed on. -/
theorem setval_cut (hi : i < ENV_VARS) (hnum : numeral (cstring value) = some (v : Int))
    (hlt : v < valueRange i) (hlong : EV_MAX_VAL_LEN ≤ (cstring value).length) :
    setval i (copied value EV_MAX_VAL_LEN) * 10 ≤ v := by
  have hbound := valueRange_le hi
  have hpos : EV_MAX_VAL_LEN - 1 < EV_MAX_VAL_LEN := by decide
  have htenth := atol_take hnum (by omega) (Nat.lt_of_lt_of_le hpos hlong)
  have hhead : ¬ 'a' ≤ (copied value EV_MAX_VAL_LEN).headD NULLCH :=
    headD_take _ _ (numeral_head (by rw [hnum]; exact Option.some_ne_none _))
  unfold copied at hhead ⊢
  rw [setval_eq hi hhead (by omega)]
  exact htenth

/-- A text too long for the buffer is no name. -/
theorem Shell.Meant.numeral (hi : i < ENV_VARS) (h : Meant i text v)
    (hlong : EV_MAX_VAL_LEN ≤ text.length) :
    BbbXinu.numeral text = some (v : Int) ∧ v < valueRange i := by
  rcases h with hname | hnum
  · have hv : v < (envvar i).valcount := (List.getElem?_eq_some_iff.mp hname).1
    have hplain := (vals_plain i hi v hv).1
    rw [List.getD_eq_getElem?_getD, hname, Option.getD_some] at hplain
    omega
  · exact hnum

theorem Shell.Meant.unique {v' : Nat} (hi : i < ENV_VARS) (h : Meant i (cstring value) v)
    (h' : Meant i (cstring value) v') : v = v' := by
  by_cases hshort : (cstring value).length < EV_MAX_VAL_LEN
  · exact (setval_meant hi h hshort).symm.trans (setval_meant hi h' hshort)
  · have hlong := Nat.not_lt.mp hshort
    have hsame := (h.numeral hi hlong).1.symm.trans (h'.numeral hi hlong).1
    exact Int.ofNat.inj (Option.some.inj hsame)

/-!
## The command
-/

theorem Shell.Known.xshSet (h : Known name i) (t : Shell) (value : List Char) :
    t.xshSet (setArgs name value) = t.setenv i (setval i (copied value EV_MAX_VAL_LEN)) := by
  unfold Shell.xshSet setArgs
  dsimp only
  rw [if_pos (by decide), h.findvar]

/-- Only {lit}`set_dblevel` can fail to return. -/
theorem setenv_ends (h : ¬ (i = EV_DBLEVEL ∧ v = uint32 SYSERR)) : ∃ t', t.setenv i v = some t' := by
  unfold Shell.setenv
  split
  · exact ⟨_, rfl⟩
  · split
    · exact ⟨_, rfl⟩
    · split
      · exact ⟨_, rfl⟩
      · split
        · exact ⟨_, rfl⟩
        · split
          · exact ⟨_, rfl⟩
          · split
            · rename_i hlevel
              unfold setDblevel
              dsimp only
              split
              · rw [if_neg fun hmax => h ⟨hlevel, hmax⟩]
                exact ⟨_, rfl⟩
              · exact ⟨_, rfl⟩
            · exact ⟨_, rfl⟩

theorem meant_lt (h : Meant i text v) : v < valueRange i := by
  rcases h with hname | ⟨_, hlt⟩
  · have hv : v < (envvar i).valcount := (List.getElem?_eq_some_iff.mp hname).1
    unfold valueRange
    rw [if_pos (by omega)]
    exact hv
  · exact hlt

/-- The value that is passed on is the one that is meant. -/
theorem setval_of_fits (hi : i < ENV_VARS) (h : Meant i (cstring value) v)
    (hfits : (cstring value).length < EV_MAX_VAL_LEN ∨ v = 0) :
    setval i (copied value EV_MAX_VAL_LEN) = v := by
  by_cases hshort : (cstring value).length < EV_MAX_VAL_LEN
  · exact setval_meant hi h hshort
  · rcases h.numeral hi (Nat.not_lt.mp hshort) with ⟨hnum, hlt⟩
    have hcut := setval_cut hi hnum hlt (Nat.not_lt.mp hshort)
    have hzero := hfits.resolve_left hshort
    omega

/-!
## The exact condition
-/

/-- The command is all or nothing if and only if the text names a value or is a number in
range, and it is not cut off to another number, or the scheduler is not to be changed and
keeps that value. -/
theorem set_command_iff : AllOrNothing t name value ↔
    ∃ i v, Known name i ∧ Meant i (cstring value) v ∧
      if t.refuses i then t.val i = v
      else (cstring value).length < EV_MAX_VAL_LEN ∨ v = 0 := by
  constructor
  · intro h
    have hgood : ∃ i v, Known name i ∧ Meant i (cstring value) v := by
      by_contra hbad
      rcases h.rejects hbad with ⟨t', status, hstatus, hne, _⟩
      rcases Option.map_eq_some_iff.mp hstatus with ⟨t'', _, heq⟩
      exact hne (congrArg Prod.snd heq).symm
    rcases hgood with ⟨i, v, hknown, hmeant⟩
    refine ⟨i, v, hknown, hmeant, ?_⟩
    rcases h.sets i v hknown hmeant with ⟨t', hstatus, hval, _⟩
    rcases Option.map_eq_some_iff.mp hstatus with ⟨t'', hset, heq⟩
    have ht : t'' = t' := congrArg Prod.fst heq
    rw [hknown.xshSet, ht] at hset
    rw [setenv_val hknown.1 hset i] at hval
    by_cases hrefuses : t.refuses i
    · rw [if_neg fun hi => hi.2 hrefuses] at hval
      rw [if_pos hrefuses]
      exact hval
    · rw [if_pos ⟨rfl, hrefuses⟩] at hval
      rw [if_neg hrefuses]
      by_contra hfits
      rcases not_or.mp hfits with ⟨hlong, hpos⟩
      rcases hmeant.numeral hknown.1 (Nat.not_lt.mp hlong) with ⟨hnum, hlt⟩
      have hcut := setval_cut hknown.1 hnum hlt (Nat.not_lt.mp hlong)
      omega
  · intro h
    rcases h with ⟨i, v, hknown, hmeant, hcond⟩
    constructor
    · intro i' v' hknown' hmeant'
      have hi := hknown'.unique hknown
      subst hi
      have hv := hmeant'.unique hknown.1 hmeant
      subst hv
      have hpass : t.refuses i' ∨ setval i' (copied value EV_MAX_VAL_LEN) = v' := by
        by_cases hrefuses : t.refuses i'
        · exact Or.inl hrefuses
        · rw [if_neg hrefuses] at hcond
          exact Or.inr (setval_of_fits hknown.1 hmeant hcond)
      have hends : ¬ (i' = EV_DBLEVEL ∧
          setval i' (copied value EV_MAX_VAL_LEN) = uint32 SYSERR) := by
        rintro ⟨hlevel, hmax⟩
        rcases hpass with hrefuses | heq
        · exact absurd (hlevel.symm.trans hrefuses.1) (by decide)
        · have hlt := meant_lt hmeant
          rw [← heq, hmax, hlevel] at hlt
          exact absurd hlt (by decide)
      rcases setenv_ends hends (t := t) with ⟨t', ht'⟩
      refine ⟨t', ?_, ?_, ?_⟩
      · unfold xshSetStatus
        rw [hknown.xshSet, ht']
        rfl
      · rw [setenv_val hknown.1 ht']
        by_cases hrefuses : t.refuses i'
        · rw [if_pos hrefuses] at hcond
          rw [if_neg fun hi => hi.2 hrefuses]
          exact hcond
        · rw [if_pos ⟨rfl, hrefuses⟩]
          exact hpass.resolve_left hrefuses
      · intro j hj
        rw [setenv_val hknown.1 ht', if_neg fun hi => hj hi.1]
    · intro hnone
      exact absurd ⟨i, v, hknown, hmeant⟩ hnone

end

/-- By name. -/
theorem set_command_random : AllOrNothing sampleShell "scheduler".toList "random".toList :=
  set_command_iff.mpr ⟨1, 2, by decide, Or.inl (by decide), by decide +kernel⟩

/-- A number that is out of range is stored as -1. -/
theorem set_command_seven :
    ¬ ∀ (t : Shell) (name value : List Char), AllOrNothing t name value := by
  intro hall
  have hnone : ¬ ∃ i v, Known "scheduler".toList i ∧ Meant i (cstring "7".toList) v := by
    rintro ⟨i, v, hknown, hmeant⟩
    have hi := hknown.unique (show Known "scheduler".toList 1 by decide)
    subst hi
    rcases hmeant with hname | ⟨hnum, hlt⟩
    · have hv : v < 3 := (List.getElem?_eq_some_iff.mp hname).1
      have hall : ∀ v < 3, (envvar 1).vals[v]? ≠ some (cstring "7".toList) := by decide
      exact hall v hv hname
    · have hseven : numeral (cstring "7".toList) = some 7 := by decide
      rw [hseven] at hnum
      have hv : v = 7 := Int.ofNat.inj (Option.some.inj hnum).symm
      rw [hv] at hlt
      exact absurd hlt (by decide)
  rcases (hall sampleShell "scheduler".toList "7".toList).rejects hnone with
    ⟨t', status, hstatus, _, hsame⟩
  rcases Option.map_eq_some_iff.mp hstatus with ⟨t'', hset, heq⟩
  have ht : t'' = t' := congrArg Prod.fst heq
  have hknown : Known "scheduler".toList 1 := by decide
  rw [hknown.xshSet, ht] at hset
  have hval := setenv_val (by decide) hset 1
  rw [if_pos ⟨rfl, by decide +kernel⟩] at hval
  have hkept : t'.val 1 = sampleShell.val 1 := congrFun hsame.envtab 1
  rw [hval] at hkept
  exact absurd hkept (by decide +kernel)

end BbbXinu
