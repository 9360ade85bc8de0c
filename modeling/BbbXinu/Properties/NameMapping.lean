import BbbXinu.Lib.Hops
import BbbXinu.Nam.Map

/-!
# Mapping names

The table of names stands for a substitution of prefixes, which is done again while the
result is for the namespace device.  {lit}`nammap` never substitutes in a result, and for
the longest names that fit it loses what is behind the prefix.
-/

namespace BbbXinu
namespace Nam

open CStrings Hops

/-!
## What a table means
-/

namespace Nmentry

def prefixText (e : Nmentry) : List UInt8 := (cstr e.nprefix NM_PRELEN).getD []

def replaceText (e : Nmentry) : List UInt8 := (cstr e.nreplace NM_REPLLEN).getD []

/-- The prefix matches a name. -/
def begins (name : List UInt8) (e : Nmentry) : Bool := decide (e.prefixText <+: name)

end Nmentry

namespace NameTable

/-- The first entry whose prefix matches. -/
def first (T : NameTable) (name : List UInt8) : Option Nmentry :=
  T.nametab.find? (Nmentry.begins name)

/-- One substitution: the device and the name, if a prefix matches and the result fits. -/
def substitute (T : NameTable) (name : List UInt8) : Option (Int × List UInt8) :=
  match T.first name with
  | none => none
  | some e =>
      let result := e.replaceText ++ name.drop e.prefixText.length
      if result.length < NM_MAXLEN then some (e.ndevice, result) else none

/-- The device and the name that a name is mapped to. -/
def mapped (T : NameTable) (namdev : Int) (name : List UInt8) : Option (Int × List UInt8) :=
  follow T.substitute (fun newdev => newdev = namdev) T.nametab.length name

/-- The substitutions lead to another device than the namespace in time. -/
def Escapes (T : NameTable) (namdev : Int) (name : List UInt8) : Prop :=
  Leaves T.substitute (fun newdev => newdev = namdev) T.nametab.length name

/-- The first substitution is the last one and the name is not of the greatest length, or
the name stays in the namespace.  Nothing is asked of a name that no prefix matches. -/
def Direct (T : NameTable) (namdev : Int) (name : List UInt8) : Prop :=
  ∀ e ∈ T.first name,
    if e.ndevice = namdev then ¬ T.Escapes namdev name else name.length + 1 < NM_MAXLEN

/-- What {lit}`nammap` leaves in the buffer and returns is what the table says. -/
def Maps (T : NameTable) (namdev : Int) (name : List UInt8) (r : (Nat → UInt8) × Int) : Prop :=
  match T.mapped namdev name with
  | none => r.2 = SYSERR
  | some (newdev, newname) => r.2 = newdev ∧ cstr r.1 NM_MAXLEN = some newname

end NameTable

section

variable {T : NameTable} {e : Nmentry} {l : List Nmentry} {s : List UInt8} {namdev : Int}
  {name newname tmpname : Nat → UInt8}

theorem not_isbaddev_syserr (h : ¬isbaddev namdev) : namdev ≠ SYSERR := by
  rintro rfl
  exact h (Or.inl (by decide))

/-!
## One substitution
-/

theorem cstr_prefixText (h : (nullAt e.nprefix NM_PRELEN).isSome) :
    cstr e.nprefix NM_PRELEN = some e.prefixText := by
  rcases Option.isSome_iff_exists.mp h with ⟨len, hlen⟩
  unfold Nmentry.prefixText cstr
  rw [hlen]
  rfl

theorem cstr_replaceText (h : (nullAt e.nreplace NM_REPLLEN).isSome) :
    cstr e.nreplace NM_REPLLEN = some e.replaceText := by
  rcases Option.isSome_iff_exists.mp h with ⟨len, hlen⟩
  unfold Nmentry.replaceText cstr
  rw [hlen]
  rfl

theorem namlen_of_cstr {buf : Nat → UInt8} {n : Nat} (h : cstr buf n = some s) :
    namlen buf n = s.length + 1 := by
  unfold namlen
  rw [cstr_nullAt h]

theorem comparePrefix_eq_some_iff {pptr optr : Nat → UInt8} {plen : Nat} :
    comparePrefix pptr optr = some plen ↔ plen < NM_PRELEN ∧
      (pptr plen = 0 ∨ pptr plen ≠ optr plen) ∧ ∀ i < plen, pptr i ≠ 0 ∧ pptr i = optr i := by
  unfold comparePrefix
  rw [List.find?_range_eq_some]
  simp only [decide_eq_true_eq, List.mem_range, Bool.not_eq_true', decide_eq_false_iff_not,
    not_or, not_not]
  constructor
  · rintro ⟨hstop, hlt, hbefore⟩
    exact ⟨hlt, hstop, hbefore⟩
  · rintro ⟨hlt, hstop, hbefore⟩
    exact ⟨hstop, hlt, hbefore⟩

/-- The loop stops at the end of the prefix if and only if the prefix matches. -/
theorem comparePrefix_filter (hends : (nullAt e.nprefix NM_PRELEN).isSome)
    (hname : cstr name NM_MAXLEN = some s) :
    ((comparePrefix e.nprefix name).filter fun plen => e.nprefix plen = 0) =
      if e.prefixText <+: s then some e.prefixText.length else none := by
  have hp := cstr_prefixText hends
  rcases nullAt_eq_some_iff.mp (cstr_nullAt hp) with ⟨hlt, hzero, hbefore⟩
  by_cases hmatch : e.prefixText <+: s
  · have hsame := (isPrefix_iff hp hname).mp hmatch
    have hstop : comparePrefix e.nprefix name = some e.prefixText.length :=
      comparePrefix_eq_some_iff.mpr ⟨hlt, Or.inl hzero, fun i hi => ⟨hbefore i hi, hsame i hi⟩⟩
    rw [if_pos hmatch, hstop, Option.filter_some, if_pos (decide_eq_true hzero)]
  · rw [if_neg hmatch, Option.filter_eq_none_iff]
    intro plen hplen hend
    rcases comparePrefix_eq_some_iff.mp hplen with ⟨_, _, hsame⟩
    have hlen : plen = e.prefixText.length := by
      rcases Nat.lt_trichotomy plen e.prefixText.length with h | h | h
      · exact absurd (of_decide_eq_true hend) (hbefore plen h)
      · exact h
      · exact absurd hzero (hsame _ h).1
    exact hmatch ((isPrefix_iff hp hname).mpr fun i hi => (hsame i (hlen ▸ hi)).2)

/-- What {lit}`namrepl` does with the entry that matches. -/
def applied (e : Nmentry) (s : List UInt8) (name newname : Nat → UInt8) :
    (Nat → UInt8) × Int :=
  let remain : Int := (s.length + 1 : Nat) % 256 - e.prefixText.length
  if e.replaceText.length + remain > NM_MAXLEN then (newname, SYSERR)
  else
    (copy (copy newname 0 e.nreplace 0 e.replaceText.length) e.replaceText.length name
      e.prefixText.length remain.toNat, e.ndevice)

theorem namrepl_eq
    (hends : ∀ e ∈ l, (nullAt e.nprefix NM_PRELEN).isSome ∧ (nullAt e.nreplace NM_REPLLEN).isSome)
    (hname : cstr name NM_MAXLEN = some s) :
    namrepl name newname l =
      match l.find? (Nmentry.begins s) with
      | none => (newname, SYSERR)
      | some e => applied e s name newname := by
  induction l with
  | nil => rfl
  | cons e l ih =>
      rcases hends e List.mem_cons_self with ⟨hpre, hrep⟩
      unfold namrepl
      rw [comparePrefix_filter hpre hname]
      by_cases hmatch : e.prefixText <+: s
      · have hrlen : namlen e.nreplace NM_MAXLEN - 1 = e.replaceText.length := by
          rw [namlen_of_cstr
            (cstr_mono (cstr_replaceText hrep) (by decide : NM_REPLLEN ≤ NM_MAXLEN))]
          omega
        rw [if_pos hmatch, List.find?_cons_of_pos (p := Nmentry.begins s) (decide_eq_true hmatch)]
        dsimp only
        rw [hrlen, namlen_of_cstr hname, Int.toNat_natCast]
        rfl
      · rw [if_neg hmatch, List.find?_cons_of_neg (p := Nmentry.begins s)
          fun h => hmatch (of_decide_eq_true h)]
        exact ih fun e he => hends e (List.mem_cons_of_mem _ he)

theorem NameTable.namrepl_of_none (newname : Nat → UInt8)
    (hname : cstr name NM_MAXLEN = some s) (h : T.first s = none) :
    namrepl name newname T.nametab = (newname, SYSERR) := by
  rw [namrepl_eq T.ends hname]
  unfold first at h
  rw [h]

theorem NameTable.namrepl_of_some (newname : Nat → UInt8)
    (hname : cstr name NM_MAXLEN = some s) (h : T.first s = some e) :
    namrepl name newname T.nametab = applied e s name newname := by
  rw [namrepl_eq T.ends hname]
  unfold first at h
  rw [h]

theorem NameTable.first_spec (h : T.first s = some e) : e ∈ T.nametab ∧ e.prefixText <+: s :=
  ⟨List.mem_of_find?_eq_some h, of_decide_eq_true (List.find?_some (p := Nmentry.begins s) h)⟩

theorem NameTable.replaceText_lt (he : e ∈ T.nametab) : e.replaceText.length < NM_REPLLEN :=
  cstr_length_lt (cstr_replaceText (T.ends e he).2)

theorem NameTable.prefixText_lt (he : e ∈ T.nametab) : e.prefixText.length < NM_PRELEN :=
  cstr_length_lt (cstr_prefixText (T.ends e he).1)

/-- A name that is not of the greatest length is substituted as the table says. -/
theorem NameTable.applied_short (newname : Nat → UInt8) (hname : cstr name NM_MAXLEN = some s)
    (hshort : s.length + 1 < NM_MAXLEN) (h : T.first s = some e) :
    match T.substitute s with
    | none => applied e s name newname = (newname, SYSERR)
    | some (newdev, result) => (applied e s name newname).2 = newdev ∧
        cstr (applied e s name newname).1 NM_MAXLEN = some result := by
  rcases T.first_spec h with ⟨he, hmatch⟩
  have hle := hmatch.length_le
  have hremain : ((s.length + 1 : Nat) % 256 - e.prefixText.length : Int) =
      (s.length + 1 - e.prefixText.length : Nat) := by
    unfold NM_MAXLEN at hshort
    omega
  have hlen : (e.replaceText ++ s.drop e.prefixText.length).length =
      e.replaceText.length + (s.length - e.prefixText.length) := by
    rw [List.length_append, List.length_drop]
  unfold substitute applied
  rw [h, hremain]
  dsimp only
  rw [hlen, Int.toNat_natCast]
  by_cases hfits : e.replaceText.length + (s.length - e.prefixText.length) < NM_MAXLEN
  · rw [if_pos hfits, if_neg (by omega)]
    exact ⟨rfl, cstr_copy_copy (cstr_replaceText (T.ends e he).2) hname hle (by omega)⟩
  · rw [if_neg hfits, if_pos (by omega)]

/-- Of a name of the greatest length nothing is left but the replacement. -/
theorem NameTable.applied_long (hlong : s.length + 1 = NM_MAXLEN) (h : T.first s = some e) :
    applied e s name newname = (copy newname 0 e.nreplace 0 e.replaceText.length, e.ndevice) := by
  have hlt := T.replaceText_lt (T.first_spec h).1
  have hremain : ((s.length + 1 : Nat) % 256 - e.prefixText.length : Int) =
      -e.prefixText.length := by
    rw [hlong]
    unfold NM_MAXLEN
    omega
  unfold applied
  rw [hremain]
  dsimp only
  rw [if_neg (by unfold NM_MAXLEN; unfold NM_REPLLEN at hlt; omega), Int.toNat_neg_natCast]
  congr 1
  funext i
  by_cases hi : i < e.replaceText.length
  · exact copy_of_lt hi
  · exact copy_of_le (by omega)

/-!
## The loop
-/

theorem nammapLoop_stays {n : Nat}
    (h : ∀ newname, (namrepl tmpname newname l).2 = namdev) :
    (nammapLoop l tmpname namdev n newname).2 = SYSERR := by
  induction n generalizing newname with
  | zero => rfl
  | succ n ih =>
      unfold nammapLoop
      dsimp only
      rw [if_neg (not_not.mpr (h newname))]
      exact ih

theorem nammapLoop_first {n : Nat} (hn : 0 < n) (h : (namrepl tmpname newname l).2 ≠ namdev) :
    nammapLoop l tmpname namdev n newname = namrepl tmpname newname l := by
  cases n with
  | zero => omega
  | succ n =>
      unfold nammapLoop
      exact if_pos h

/-- A name that fits is copied. -/
theorem namcpy_of_cstr (tmpname : Nat → UInt8) (hname : cstr name NM_MAXLEN = some s) :
    (namcpy tmpname name NM_MAXLEN).2 = OK ∧
      cstr (namcpy tmpname name NM_MAXLEN).1 NM_MAXLEN = some s := by
  unfold namcpy
  rw [cstr_nullAt hname]
  exact ⟨rfl, cstr_copy hname⟩

theorem nammap_eq (hname : cstr name NM_MAXLEN = some s) :
    nammap l tmpname name newname namdev =
      nammapLoop l (namcpy tmpname name NM_MAXLEN).1 namdev l.length newname := by
  unfold nammap
  dsimp only
  rw [(namcpy_of_cstr tmpname hname).1]
  exact if_neg (by decide)

namespace NameTable

theorem nammap_of_none (tmpname newname : Nat → UInt8)
    (hname : cstr name NM_MAXLEN = some s) (h : T.first s = none) (hdev : ¬isbaddev namdev) :
    nammap T.nametab tmpname name newname namdev = (newname, SYSERR) := by
  have hrepl := T.namrepl_of_none newname (namcpy_of_cstr tmpname hname).2 h
  rw [nammap_eq hname]
  rcases Nat.eq_zero_or_pos T.nametab.length with hn | hn
  · rw [hn]
    rfl
  · rw [nammapLoop_first hn (by rw [hrepl]; exact (not_isbaddev_syserr hdev).symm), hrepl]

/-- A name whose first substitution is for another device. -/
theorem nammap_of_some (tmpname newname : Nat → UInt8)
    (hname : cstr name NM_MAXLEN = some s) (h : T.first s = some e)
    (hdev : ¬isbaddev namdev) (hother : e.ndevice ≠ namdev) :
    nammap T.nametab tmpname name newname namdev =
      applied e s (namcpy tmpname name NM_MAXLEN).1 newname := by
  have hrepl := T.namrepl_of_some newname (namcpy_of_cstr tmpname hname).2 h
  have hpos : 0 < T.nametab.length := List.length_pos_of_mem (T.first_spec h).1
  rw [nammap_eq hname, nammapLoop_first hpos ?_, hrepl]
  rw [hrepl]
  unfold applied
  dsimp only
  split
  · exact (not_isbaddev_syserr hdev).symm
  · exact hother

/-- A name whose first substitution is for the namespace is not mapped. -/
theorem nammap_of_namespace (tmpname newname : Nat → UInt8)
    (hname : cstr name NM_MAXLEN = some s) (h : T.first s = some e)
    (hdev : ¬isbaddev namdev) (hsame : e.ndevice = namdev) :
    (nammap T.nametab tmpname name newname namdev).2 = SYSERR := by
  have hrepl : ∀ newname, namrepl (namcpy tmpname name NM_MAXLEN).1 newname T.nametab =
      applied e s (namcpy tmpname name NM_MAXLEN).1 newname :=
    fun newname => T.namrepl_of_some newname (namcpy_of_cstr tmpname hname).2 h
  have hpos : 0 < T.nametab.length := List.length_pos_of_mem (T.first_spec h).1
  rw [nammap_eq hname]
  by_cases hroom : e.replaceText.length + ((s.length + 1 : Nat) % 256 - e.prefixText.length : Int) >
      NM_MAXLEN
  · have hfails : ∀ newname, applied e s (namcpy tmpname name NM_MAXLEN).1 newname =
        (newname, SYSERR) := fun _ => if_pos hroom
    rw [nammapLoop_first hpos (by rw [hrepl, hfails]; exact (not_isbaddev_syserr hdev).symm), hrepl,
      hfails]
  · apply nammapLoop_stays
    intro newname
    rw [hrepl]
    unfold applied
    dsimp only
    rw [if_neg hroom]
    exact hsame

/-!
## Every table and every name
-/

theorem substitute_eq_some {r : Int × List UInt8} (h : T.substitute s = some r) :
    ∃ e, T.first s = some e ∧ r = (e.ndevice, e.replaceText ++ s.drop e.prefixText.length) := by
  unfold substitute at h
  split at h
  · cases h
  · rename_i e hfirst
    dsimp only at h
    split at h
    · cases h
      exact ⟨e, hfirst, rfl⟩
    · cases h

theorem mapped_device {r : Int × List UInt8} (h : T.mapped namdev s = some r) : r.1 ≠ SYSERR := by
  rcases follow_answer h with ⟨s', hs'⟩
  rcases substitute_eq_some hs' with ⟨e, he, rfl⟩
  exact not_isbaddev_syserr (T.devices e (T.first_spec he).1)

theorem substitute_of_none (h : T.first s = none) : T.substitute s = none := by
  unfold substitute
  rw [h]

/-- With the first substitution for another device that is all. -/
theorem mapped_of_other (h : T.first s = some e) (hother : e.ndevice ≠ namdev) :
    T.mapped namdev s = T.substitute s := by
  have hpos : 0 < T.nametab.length := List.length_pos_of_mem (T.first_spec h).1
  rcases Nat.exists_eq_succ_of_ne_zero hpos.ne' with ⟨n, hn⟩
  unfold mapped
  cases hsub : T.substitute s with
  | none => exact follow_of_none hsub
  | some r =>
      rcases substitute_eq_some hsub with ⟨e', he', rfl⟩
      rw [h] at he'
      cases he'
      rw [hn]
      exact follow_of_last hsub hother

theorem maps_of_syserr {r : (Nat → UInt8) × Int} (hr : r.2 = SYSERR) :
    T.Maps namdev s r ↔ ¬ T.Escapes namdev s := by
  unfold Escapes
  rw [← follow_isSome_iff]
  change _ ↔ ¬ (T.mapped namdev s).isSome
  unfold Maps
  cases hm : T.mapped namdev s with
  | none => exact iff_of_true hr (by decide)
  | some q =>
      refine iff_of_false ?_ (by simp)
      rintro ⟨hdev, -⟩
      exact mapped_device hm (hdev.symm.trans hr)

end NameTable

/-- A name that fits is mapped as the table says, whatever is in the buffer for the result
before, if and only if it takes one substitution at most and leaves a byte unused, or never
leaves the namespace. -/
theorem name_mapping_iff (T : NameTable) {namdev : Int} (hdev : ¬isbaddev namdev)
    {name : Nat → UInt8} {s : List UInt8} (hname : cstr name NM_MAXLEN = some s)
    (tmpname : Nat → UInt8) :
    (∀ newname, T.Maps namdev s (nammap T.nametab tmpname name newname namdev)) ↔
      T.Direct namdev s := by
  cases hfirst : T.first s with
  | none =>
      refine iff_of_true ?_ ?_
      · intro newname
        rw [T.nammap_of_none tmpname newname hname hfirst hdev]
        unfold NameTable.Maps NameTable.mapped
        rw [follow_of_none (NameTable.substitute_of_none hfirst)]
      · intro e he
        rw [hfirst] at he
        cases he
  | some e =>
      have hdirect : T.Direct namdev s ↔
          if e.ndevice = namdev then ¬ T.Escapes namdev s else s.length + 1 < NM_MAXLEN := by
        unfold NameTable.Direct
        rw [hfirst]
        exact ⟨fun h => h e rfl, fun h e' he' => by cases he'; exact h⟩
      have hvalid := not_isbaddev_syserr (T.devices e (T.first_spec hfirst).1)
      rw [hdirect]
      by_cases hsame : e.ndevice = namdev
      · rw [if_pos hsame]
        have hsys := fun newname => T.nammap_of_namespace tmpname newname hname hfirst hdev hsame
        exact ⟨fun h => (NameTable.maps_of_syserr (hsys name)).mp (h name),
          fun h newname => (NameTable.maps_of_syserr (hsys newname)).mpr h⟩
      · rw [if_neg hsame]
        have happlied := fun newname => T.nammap_of_some tmpname newname hname hfirst hdev hsame
        have hmapped := NameTable.mapped_of_other hfirst hsame
        have hcopied := (namcpy_of_cstr tmpname hname).2
        constructor
        · intro hmaps
          by_contra hlong
          have hlen : s.length + 1 = NM_MAXLEN := by
            have hlt := cstr_length_lt hname
            omega
          have hzero := hmaps fun _ => 0
          rw [happlied, NameTable.applied_long hlen hfirst] at hzero
          unfold NameTable.Maps at hzero
          rw [hmapped] at hzero
          cases hsub : T.substitute s with
          | none =>
              rw [hsub] at hzero
              exact hvalid hzero
          | some r =>
              rw [hsub] at hzero
              rcases NameTable.substitute_eq_some hsub with ⟨e', he', rfl⟩
              rw [hfirst] at he'
              cases he'
              have hrest := hzero.2
              rw [cstr_copy_zero (cstr_mono (cstr_replaceText (T.ends e (T.first_spec hfirst).1).2)
                (by decide : NM_REPLLEN ≤ NM_MAXLEN))] at hrest
              have hdrop := List.self_eq_append_right.mp (Option.some.inj hrest)
              have hle := List.drop_eq_nil_iff.mp hdrop
              have hlt := T.prefixText_lt (T.first_spec hfirst).1
              unfold NM_MAXLEN at hlen
              unfold NM_PRELEN at hlt
              omega
        · intro hshort newname
          have hstep := NameTable.applied_short newname hcopied hshort hfirst
          rw [happlied]
          unfold NameTable.Maps
          rw [hmapped]
          cases hsub : T.substitute s with
          | none =>
              rw [hsub] at hstep
              dsimp only at hstep ⊢
              rw [hstep]
          | some r =>
              rw [hsub] at hstep
              exact hstep

/-!
## A table with a chain
-/

/-- The string in memory, with null bytes behind it. -/
def asciz (l : List UInt8) : Nat → UInt8 := fun i => l.getD i 0

def NAMESPACE : Int := 3

/-- The names that start with {lit}`a` are those that start with {lit}`b`, which are on
device 5, where they start with {lit}`c`. -/
def chainTable : NameTable :=
  (mount (mount NameTable.empty (asciz [97]) (asciz [98]) NAMESPACE).1
    (asciz [98]) (asciz [99]) 5).1

theorem chainTable_direct : chainTable.Direct NAMESPACE [98, 47] := by
  intro e he
  have hne : ¬ e.ndevice = NAMESPACE := by
    have hdev : (chainTable.first [98, 47]).map Nmentry.ndevice = some 5 := by decide +kernel
    rw [he] at hdev
    have heq : e.ndevice = 5 := Option.some.inj hdev
    rw [heq]
    decide
  rw [if_neg hne]
  decide

/-- A name that starts with {lit}`b`. -/
theorem name_mapping_single :
    chainTable.mapped NAMESPACE [98, 47] = some (5, [99, 47]) ∧
      ∀ newname, chainTable.Maps NAMESPACE [98, 47]
        (nammap chainTable.nametab (asciz []) (asciz [98, 47]) newname NAMESPACE) :=
  ⟨by decide +kernel,
    (name_mapping_iff chainTable (by decide) (by decide +kernel) (asciz [])).mpr chainTable_direct⟩

/-- A name that starts with {lit}`a` is not mapped. -/
theorem name_mapping_chained :
    ¬ ∀ (T : NameTable) (namdev : Int), ¬isbaddev namdev →
      ∀ (name : Nat → UInt8) (s : List UInt8), cstr name NM_MAXLEN = some s →
        ∀ tmpname newname : Nat → UInt8,
          T.Maps namdev s (nammap T.nametab tmpname name newname namdev) := by
  intro hall
  have hmaps := hall chainTable NAMESPACE (by decide) (asciz [97]) [97] (by decide +kernel)
    (asciz []) (asciz [])
  have hmapped : chainTable.mapped NAMESPACE [97] = some (5, [99]) := by decide +kernel
  have hsys : (nammap chainTable.nametab (asciz []) (asciz [97]) (asciz []) NAMESPACE).2 =
      SYSERR := by decide +kernel
  unfold NameTable.Maps at hmaps
  rw [hmapped, hsys] at hmaps
  exact absurd hmaps.1 (by decide)

end

/-!
## Replacing one prefix

{lit}`namrepl` by itself: the result of one substitution, the bytes of the buffer that it
leaves alone, and the names of the greatest length.
-/

/-- If a prefix matches, the buffer has the replacement and the rest of the name, and no byte
behind that has changed; or that does not fit, and nothing has changed. -/
def NameTable.Replaces (T : NameTable) (s : List UInt8) (newname : Nat → UInt8)
    (r : (Nat → UInt8) × Int) : Prop :=
  ∀ e ∈ T.first s,
    let result := e.replaceText ++ s.drop e.prefixText.length
    if result.length < NM_MAXLEN then
      r.2 = e.ndevice ∧ cstr r.1 NM_MAXLEN = some result ∧
        ∀ i > result.length, r.1 i = newname i
    else r = (newname, SYSERR)

section

variable {T : NameTable} {e : Nmentry} {s : List UInt8} {name newname : Nat → UInt8}

/-- Nothing is stored behind the null byte. -/
theorem applied_frame (hle : e.prefixText.length ≤ s.length) (hshort : s.length + 1 < NM_MAXLEN)
    {i : Nat} (hi : (e.replaceText ++ s.drop e.prefixText.length).length < i) :
    (applied e s name newname).1 i = newname i := by
  rw [List.length_append, List.length_drop] at hi
  unfold applied
  dsimp only
  split
  · rfl
  · have hremain : ((s.length + 1 : Nat) % 256 - e.prefixText.length : Int).toNat =
        s.length + 1 - e.prefixText.length := by
      unfold NM_MAXLEN at hshort
      omega
    rw [hremain]
    dsimp only
    rw [copy_of_le (by omega), copy_of_le (by omega)]

theorem NameTable.replaces_short (hname : cstr name NM_MAXLEN = some s)
    (hshort : s.length + 1 < NM_MAXLEN) : T.Replaces s newname (namrepl name newname T.nametab) := by
  intro e he
  have hfirst : T.first s = some e := he
  have hstep := T.applied_short newname hname hshort hfirst
  have hle := (T.first_spec hfirst).2.length_le
  rw [T.namrepl_of_some newname hname hfirst]
  unfold substitute at hstep
  rw [hfirst] at hstep
  dsimp only at hstep ⊢
  by_cases hfits : (e.replaceText ++ s.drop e.prefixText.length).length < NM_MAXLEN
  · rw [if_pos hfits] at hstep ⊢
    exact ⟨hstep.1, hstep.2, fun i hi => applied_frame hle hshort hi⟩
  · rw [if_neg hfits] at hstep ⊢
    exact hstep

/-- In a buffer of null bytes the rest of a name of the greatest length is missing. -/
theorem NameTable.not_replaces_long (hname : cstr name NM_MAXLEN = some s)
    (hlong : s.length + 1 = NM_MAXLEN) (hfirst : T.first s = some e) :
    ¬T.Replaces s (fun _ => 0) (namrepl name (fun _ => 0) T.nametab) := by
  intro hall
  have he := (T.first_spec hfirst).1
  have hresult := hall e hfirst
  rw [T.namrepl_of_some _ hname hfirst, T.applied_long hlong hfirst] at hresult
  dsimp only at hresult
  by_cases hfits : (e.replaceText ++ s.drop e.prefixText.length).length < NM_MAXLEN
  · rw [if_pos hfits] at hresult
    have hrest := hresult.2.1
    rw [cstr_copy_zero (cstr_mono (cstr_replaceText (T.ends e he).2)
      (by decide : NM_REPLLEN ≤ NM_MAXLEN))] at hrest
    have hdrop := List.self_eq_append_right.mp (Option.some.inj hrest)
    have hle := List.drop_eq_nil_iff.mp hdrop
    have hlt := T.prefixText_lt he
    unfold NM_MAXLEN at hlong
    unfold NM_PRELEN at hlt
    omega
  · rw [if_neg hfits] at hresult
    exact not_isbaddev_syserr (T.devices e he) (congrArg Prod.snd hresult)

end

/-- One substitution is right, whatever is in the buffer before, if and only if the name leaves
a byte unused or no prefix matches. -/
theorem namrepl_iff (T : NameTable) (name : CString) (hname : name.chars.length < NM_MAXLEN) :
    (∀ newname, T.Replaces name.chars newname (namrepl name.mem newname T.nametab)) ↔
      name.chars.length + 1 < NM_MAXLEN ∨ T.first name.chars = none := by
  have hcstr := name.cstr_mem hname
  constructor
  · intro hall
    by_contra hboth
    have hlong : name.chars.length + 1 = NM_MAXLEN := by
      have hnot : ¬name.chars.length + 1 < NM_MAXLEN := fun h => hboth (Or.inl h)
      omega
    cases hfirst : T.first name.chars with
    | none => exact hboth (Or.inr hfirst)
    | some e => exact NameTable.not_replaces_long hcstr hlong hfirst (hall fun _ => 0)
  · rintro (hshort | hnone) newname
    · exact NameTable.replaces_short hcstr hshort
    · intro e he
      rw [hnone] at he
      cases he

theorem namrepl_two :
    chainTable.Replaces [98, 47] (fun _ => 0)
      (namrepl (CString.mem ⟨[98, 47], by decide⟩) (fun _ => 0) chainTable.nametab) :=
  (namrepl_iff chainTable ⟨[98, 47], by decide⟩ (by decide)).mpr (Or.inl (by decide)) fun _ => 0

/-- A name of 255 characters that starts with {lit}`b`. -/
def longName : CString where
  chars := 98 :: List.replicate 254 120
  nonnull := by decide

/-- Of the longest name only the replacement is stored. -/
theorem namrepl_loses_rest :
    ¬ ∀ (T : NameTable) (name : CString), name.chars.length < NM_MAXLEN → ∀ newname,
      T.Replaces name.chars newname (namrepl name.mem newname T.nametab) := by
  intro hall
  have hlen : longName.chars.length + 1 = NM_MAXLEN := by
    change (98 :: List.replicate 254 (120 : UInt8)).length + 1 = 256
    rw [List.length_cons, List.length_replicate]
  have hlt : longName.chars.length < NM_MAXLEN := by omega
  cases hfirst : chainTable.first longName.chars with
  | none => exact absurd hfirst (by decide +kernel)
  | some e =>
      exact NameTable.not_replaces_long (longName.cstr_mem hlt) hlen hfirst
        (hall chainTable longName hlt fun _ => 0)

end Nam
end BbbXinu
