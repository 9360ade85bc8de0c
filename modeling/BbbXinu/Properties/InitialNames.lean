import BbbXinu.Lib.Searches
import BbbXinu.Properties.NameMapping

/-!
# The initial namespace

The table that {lit}`naminit` leaves has the prefixes of the devices in the order of the device
table, and then the other ones from the longest to the shortest, without those that
{lit}`mount` refuses because they have no device.
-/

namespace BbbXinu
namespace Nam

open CStrings Prefixes

/-- The device tables for which all prefixes fit in the table of names. -/
structure DeviceTable where
  devtab : List Dentry
  numbers : ∀ i (h : i < devtab.length), devtab[i].dvnum = i
  distinct : (devtab.map fun d => d.dvname.chars).Nodup
  fit : ∀ d ∈ devtab, 5 + d.dvname.chars.length < NM_PRELEN
  room : devtab.length + 7 ≤ NNAMES

/-- What {lit}`naminit` registers for a device. -/
def Dentry.registration (d : Dentry) : Registration where
  pre := devprefix.chars ++ d.dvname.chars.map lowerCase
  rep := []
  device := d.dvnum

/-- The entry of a registration. -/
def Nmentry.registration (e : Nmentry) : Registration where
  pre := e.prefixText
  rep := e.replaceText
  device := e.ndevice

/-- The device exists. -/
def Registration.good (ndevs : Nat) (r : Registration) : Bool :=
  decide (¬(r.device < 0 ∨ (ndevs : Int) ≤ r.device))

namespace DeviceTable

/-- The prefixes of the devices. -/
def deviceNames (D : DeviceTable) : List Registration := D.devtab.map Dentry.registration

/-- All prefixes that {lit}`naminit` registers. -/
def registrations (D : DeviceTable) (C : Config) : List Registration :=
  D.deviceNames ++ fixedPrefixes C

/-- The search in the table ends at the longest registered prefix of the name, or finds nothing
if that has no device. -/
def Routed (D : DeviceTable) (C : Config) (nametab : List Nmentry) (s : List UInt8) : Prop :=
  ∃ r, Longest Registration.pre (D.registrations C) s r ∧
    (nametab.find? (Nmentry.begins s)).map Nmentry.registration =
      if r.good D.devtab.length then some r else none

/-- The first device whose prefix matches has the longest prefix; or none matches, and the
longest of the other prefixes has a device, or none of those that match has one. -/
def Ordered (D : DeviceTable) (C : Config) (s : List UInt8) : Prop :=
  match firstMatch Registration.pre D.deviceNames s with
  | some d => ∀ r ∈ D.registrations C, r.pre <+: s → r.pre.length ≤ d.pre.length
  | none => ∀ f, Longest Registration.pre (fixedPrefixes C) s f →
      f.good D.devtab.length ∨
        ∀ r ∈ fixedPrefixes C, r.pre <+: s → ¬r.good D.devtab.length

end DeviceTable

/-!
## The table
-/

/-- The entries stand for some registrations, and their strings end. -/
structure Stands (nametab : List Nmentry) (regs : List Registration) : Prop where
  same : nametab.map Nmentry.registration = regs
  ends : ∀ e ∈ nametab, (nullAt e.nprefix NM_PRELEN).isSome ∧ (nullAt e.nreplace NM_REPLLEN).isSome

section

variable {nametab : List Nmentry} {regs more : List Registration} {pre rep : Nat → UInt8}
  {p r s : List UInt8} {ndevs : Nat} {D : DeviceTable} {C : Config}
  {tmpstr : Nat → UInt8} {ds : List Dentry}

theorem registration_newEntry (hp : cstr pre NM_PRELEN = some p) (hr : cstr rep NM_REPLLEN = some r)
    (device : Int) : (newEntry pre rep (p.length + 1) (r.length + 1) device).registration =
      { pre := p, rep := r, device } := by
  unfold Nmentry.registration Nmentry.prefixText Nmentry.replaceText newEntry
  dsimp only
  rw [cstr_copy hp, cstr_copy hr, Option.getD_some, Option.getD_some]

theorem Stands.length (h : Stands nametab regs) : nametab.length = regs.length := by
  rw [← h.same, List.length_map]

/-- A prefix is added if it has a device. -/
theorem Stands.mountEntry (ndevs : Nat) (device : Int) (h : Stands nametab regs)
    (hroom : regs.length < NNAMES)
    (hp : cstr pre NM_PRELEN = some p) (hr : cstr rep NM_REPLLEN = some r) :
    Stands (mountEntry ndevs nametab pre rep device).1
      (regs ++ [{ pre := p, rep := r, device }].filter (Registration.good ndevs)) := by
  unfold Nam.mountEntry
  rw [cstr_nullAt hp, cstr_nullAt hr]
  dsimp only
  have hlen := h.length
  by_cases hbad : device < 0 ∨ (ndevs : Int) ≤ device
  · have hgood : Registration.good ndevs { pre := p, rep := r, device } = false :=
      decide_eq_false (not_not.mpr hbad)
    rw [if_pos (Or.inl hbad), List.filter_cons_of_neg (by rw [hgood]; decide), List.filter_nil,
      List.append_nil]
    exact h
  · have hgood : Registration.good ndevs { pre := p, rep := r, device } = true :=
      decide_eq_true hbad
    have hno : ¬((device < 0 ∨ (ndevs : Int) ≤ device) ∨ NNAMES ≤ nametab.length) := by
      rintro (h' | h')
      · exact hbad h'
      · omega
    rw [if_neg hno, List.filter_cons_of_pos hgood, List.filter_nil]
    constructor
    · rw [List.map_append, h.same, List.map_singleton, registration_newEntry hp hr]
    · intro e he
      rcases List.mem_append.mp he with hold | hnew
      · exact h.ends e hold
      · rw [List.mem_singleton.mp hnew]
        exact ⟨Option.isSome_of_eq_some (cstr_nullAt (cstr_copy hp)),
          Option.isSome_of_eq_some (cstr_nullAt (cstr_copy hr))⟩

theorem lowerCase_ne_zero {c : UInt8} (hc : c ≠ 0) : lowerCase c ≠ 0 := by
  unfold lowerCase
  split
  · rename_i hupper
    intro hzero
    have hsum := congrArg UInt8.toNat hzero
    have hhigh : c.toNat ≤ 90 := hupper.2
    rw [UInt8.toNat_add] at hsum
    change (c.toNat + 32) % 256 = 0 at hsum
    omega
  · exact hc

/-- The name is appended in lower case, with its null byte. -/
theorem appendName_spec (name : List UInt8) (hpre : ∀ i < p.length, tmpstr i = p.getD i 0)
    (hroom : p.length + name.length + 1 < NM_MAXLEN) :
    (appendName name p.length tmpstr).2 < NM_MAXLEN ∧
      ∀ i ≤ (p ++ name.map lowerCase).length,
        (appendName name p.length tmpstr).1 i = (p ++ name.map lowerCase).getD i 0 := by
  induction name generalizing p tmpstr with
  | nil =>
      rw [List.length_nil] at hroom
      unfold appendName
      rw [if_pos (by omega), List.map_nil, List.append_nil]
      refine ⟨by dsimp only; omega, fun i hi => ?_⟩
      dsimp only
      by_cases hend : i = p.length
      · rw [hend, upd_self, List.getD_eq_default _ _ (Nat.le_refl _)]
      · rw [upd_of_ne hend, hpre i (by omega)]
  | cons c name ih =>
      rw [List.length_cons] at hroom
      have hlen : (p ++ [lowerCase c]).length = p.length + 1 := List.length_append
      have hstep : ∀ i < (p ++ [lowerCase c]).length,
          upd tmpstr p.length (lowerCase c) i = (p ++ [lowerCase c]).getD i 0 := by
        intro i hi
        by_cases hend : i = p.length
        · rw [hend, upd_self, List.getD_append_right _ _ _ _ (Nat.le_refl _), Nat.sub_self]
          rfl
        · rw [upd_of_ne hend, List.getD_append _ _ _ _ (by omega), hpre i (by omega)]
      have hnext := ih hstep (by rw [hlen]; omega)
      rw [hlen, List.append_assoc, List.singleton_append] at hnext
      unfold appendName
      rw [if_pos (by omega), List.map_cons]
      exact hnext

/-- The prefix of a device, as it stands in the buffer. -/
theorem cstr_appendName (tmpstr : Nat → UInt8) {d : Dentry}
    (hfit : 5 + d.dvname.chars.length < NM_PRELEN) :
    (appendName d.dvname.chars 5 (copy tmpstr 0 devprefix.mem 0 6)).2 < NM_MAXLEN ∧
      cstr (appendName d.dvname.chars 5 (copy tmpstr 0 devprefix.mem 0 6)).1 NM_PRELEN =
        some d.registration.pre := by
  have hpre : ∀ i < devprefix.chars.length,
      copy tmpstr 0 devprefix.mem 0 6 i = devprefix.chars.getD i 0 := by
    intro i hi
    have hlen : devprefix.chars.length = 5 := rfl
    rw [copy_inside (Nat.zero_le i) (by omega), Nat.zero_add, Nat.sub_zero]
    rfl
  have hspec := appendName_spec d.dvname.chars hpre
    (by unfold NM_PRELEN at hfit; unfold NM_MAXLEN; change 5 + _ + 1 < 256; omega)
  refine ⟨hspec.1, cstr_eq_some_iff.mpr ⟨?_, ?_, hspec.2⟩⟩
  · unfold Dentry.registration
    rw [List.length_append, List.length_map]
    exact hfit
  · intro hmem
    rcases List.mem_append.mp hmem with hdev | hname
    · exact devprefix.nonnull hdev
    · rcases List.mem_map.mp hname with ⟨c, hc, hzero⟩
      exact lowerCase_ne_zero (fun heq => d.dvname.nonnull (heq ▸ hc)) hzero

theorem cstr_zero {n : Nat} (hn : 0 < n) : cstr (fun _ => 0) n = some [] :=
  cstr_eq_some_iff.mpr ⟨hn, List.not_mem_nil, fun _ _ => (List.getD_nil).symm⟩

/-- The loop over the devices adds their prefixes. -/
theorem Stands.mountDevices (ndevs : Nat) (tmpstr : Nat → UInt8) (h : Stands nametab regs)
    (hroom : regs.length + ds.length ≤ NNAMES)
    (hfit : ∀ d ∈ ds, 5 + d.dvname.chars.length < NM_PRELEN) :
    Stands (mountDevices ndevs ds tmpstr nametab)
      (regs ++ (ds.map Dentry.registration).filter (Registration.good ndevs)) := by
  induction ds generalizing nametab regs tmpstr with
  | nil =>
      rw [List.map_nil, List.filter_nil, List.append_nil]
      exact h
  | cons d ds ih =>
      rw [List.length_cons] at hroom
      have hname := cstr_appendName tmpstr (hfit d List.mem_cons_self)
      have hstep := h.mountEntry ndevs d.dvnum (by omega) hname.2
        (cstr_zero (by decide : 0 < NM_REPLLEN))
      have hle := List.length_filter_le (Registration.good ndevs) [d.registration]
      rw [List.length_singleton] at hle
      have hmore : (regs ++ List.filter (Registration.good ndevs) [d.registration]).length +
          ds.length ≤ NNAMES := by
        rw [List.length_append]
        omega
      have hnext := ih (appendName d.dvname.chars 5 (copy tmpstr 0 devprefix.mem 0 6)).1 hstep
        hmore fun d' hd' => hfit d' (List.mem_cons_of_mem d hd')
      unfold Nam.mountDevices
      dsimp only
      rw [if_neg (by omega), List.map_cons]
      have hsplit : (d.registration :: ds.map Dentry.registration).filter
          (Registration.good ndevs) = [d.registration].filter (Registration.good ndevs) ++
            (ds.map Dentry.registration).filter (Registration.good ndevs) := by
        rw [← List.filter_append, List.singleton_append]
      rw [hsplit, ← List.append_assoc]
      exact hnext

/-- The calls for the other prefixes add those with a device. -/
theorem Stands.mountAll (ndevs : Nat) (h : Stands nametab regs)
    (hroom : regs.length + more.length ≤ NNAMES)
    (hmore : ∀ r ∈ more, cstr (fun i => r.pre.getD i 0) NM_PRELEN = some r.pre ∧
      cstr (fun i => r.rep.getD i 0) NM_REPLLEN = some r.rep) :
    Stands (mountAll ndevs more nametab) (regs ++ more.filter (Registration.good ndevs)) := by
  induction more generalizing nametab regs with
  | nil =>
      rw [List.filter_nil, List.append_nil]
      exact h
  | cons r more ih =>
      rw [List.length_cons] at hroom
      rcases hmore r List.mem_cons_self with ⟨hp, hr⟩
      have hstep := h.mountEntry ndevs r.device (by omega) hp hr
      have hle := List.length_filter_le (Registration.good ndevs) [r]
      rw [List.length_singleton] at hle
      have hnext := ih hstep
        (by rw [List.length_append]; change _ + (List.filter _ [r]).length + _ ≤ _; omega)
        fun r' hr' => hmore r' (List.mem_cons_of_mem r hr')
      have hsplit : (r :: more).filter (Registration.good ndevs) =
          [r].filter (Registration.good ndevs) ++ more.filter (Registration.good ndevs) := by
        rw [← List.filter_append, List.singleton_append]
      unfold Nam.mountAll
      rw [hsplit, ← List.append_assoc]
      exact hnext

/-- The strings of the other prefixes do not depend on the configuration. -/
theorem fixedPrefixes_forall {Q : List UInt8 → List UInt8 → Prop}
    (h : ∀ r ∈ fixedPrefixes ⟨0, 0, 0⟩, Q r.pre r.rep) (C : Config) :
    ∀ r ∈ fixedPrefixes C, Q r.pre r.rep := by
  intro r hr
  have hmem : (r.pre, r.rep) ∈ (fixedPrefixes C).map fun r => (r.pre, r.rep) :=
    List.mem_map_of_mem (f := fun r => (Registration.pre r, Registration.rep r)) hr
  have hsame : ((fixedPrefixes C).map fun r => (r.pre, r.rep)) =
      (fixedPrefixes ⟨0, 0, 0⟩).map fun r => (r.pre, r.rep) := rfl
  rw [hsame] at hmem
  rcases List.mem_map.mp hmem with ⟨r', hr', heq⟩
  have hpre : r'.pre = r.pre := congrArg Prod.fst heq
  have hrep : r'.rep = r.rep := congrArg Prod.snd heq
  rw [← hpre, ← hrep]
  exact h r' hr'

theorem fixedPrefixes_fit (C : Config) : ∀ r ∈ fixedPrefixes C,
    cstr (fun i => r.pre.getD i 0) NM_PRELEN = some r.pre ∧
      cstr (fun i => r.rep.getD i 0) NM_REPLLEN = some r.rep := by
  have hall : ∀ l : List UInt8, 0 ∉ l → ∀ n, l.length < n → cstr (fun i => l.getD i 0) n = some l :=
    fun l hl n hn => cstr_eq_some_iff.mpr ⟨hn, hl, fun i _ => rfl⟩
  have hfit := fixedPrefixes_forall
    (Q := fun p r => (0 ∉ p ∧ p.length < NM_PRELEN) ∧ 0 ∉ r ∧ r.length < NM_REPLLEN) (by decide) C
  intro r hr
  rcases hfit r hr with ⟨⟨hp, hplen⟩, hrep, hreplen⟩
  exact ⟨hall _ hp _ hplen, hall _ hrep _ hreplen⟩

theorem fixedPrefixes_graded (C : Config) : Graded Registration.pre (fixedPrefixes C) := by
  have hmap : ((fixedPrefixes C).map Registration.pre).Pairwise fun p q =>
      p <+: q → q.length ≤ p.length := by
    change ((fixedPrefixes ⟨0, 0, 0⟩).map Registration.pre).Pairwise fun p q =>
      p <+: q → q.length ≤ p.length
    decide
  exact List.pairwise_map.mp hmap

theorem fixedPrefixes_nodup (C : Config) : ((fixedPrefixes C).map Registration.pre).Nodup := by
  change ((fixedPrefixes ⟨0, 0, 0⟩).map Registration.pre).Nodup
  decide

/-- What {lit}`naminit` leaves. -/
theorem naminit_stands (D : DeviceTable) (C : Config) (tmpstr : Nat → UInt8) :
    Stands (naminit D.devtab C tmpstr)
      ((D.registrations C).filter (Registration.good D.devtab.length)) := by
  have hempty : Stands [] [] := ⟨rfl, fun e he => by cases he⟩
  have hroom := D.room
  have hdevices := hempty.mountDevices D.devtab.length tmpstr
    (by rw [List.length_nil]; omega) D.fit
  rw [List.nil_append] at hdevices
  have hle := List.length_filter_le (Registration.good D.devtab.length)
    (D.devtab.map Dentry.registration)
  rw [List.length_map] at hle
  have hseven : (fixedPrefixes C).length = 7 := rfl
  have hall := hdevices.mountAll D.devtab.length (by omega) (fixedPrefixes_fit C)
  rw [← List.filter_append] at hall
  exact hall

/-!
## The search
-/

theorem DeviceTable.good_deviceNames (D : DeviceTable) :
    ∀ r ∈ D.deviceNames, r.good D.devtab.length := by
  intro r hr
  rcases List.mem_map.mp hr with ⟨d, hd, rfl⟩
  rcases List.getElem_of_mem hd with ⟨i, hi, hget⟩
  have hnum := D.numbers i hi
  rw [hget] at hnum
  apply decide_eq_true
  change ¬(d.dvnum < 0 ∨ _ ≤ d.dvnum)
  omega

/-- The entry that is found stands for the first registration with a device. -/
theorem naminit_find (D : DeviceTable) (C : Config) (tmpstr : Nat → UInt8) (s : List UInt8) :
    ((naminit D.devtab C tmpstr).find? (Nmentry.begins s)).map Nmentry.registration =
      (firstMatch Registration.pre D.deviceNames s).or
        (firstMatch Registration.pre
          ((fixedPrefixes C).filter (Registration.good D.devtab.length)) s) := by
  have hsame := (naminit_stands D C tmpstr).same
  have hdevices : D.deviceNames.filter (Registration.good D.devtab.length) = D.deviceNames :=
    List.filter_eq_self.mpr D.good_deviceNames
  have hregs : (D.registrations C).filter (Registration.good D.devtab.length) =
      D.deviceNames ++ (fixedPrefixes C).filter (Registration.good D.devtab.length) := by
    unfold DeviceTable.registrations
    rw [List.filter_append, hdevices]
  rw [← firstMatch_append, ← hregs, ← hsame]
  unfold firstMatch
  rw [List.find?_map]
  rfl

/-- If no device matches, the longest prefix is one of the others. -/
theorem longest_fixed {r : Registration} (h : firstMatch Registration.pre D.deviceNames s = none) :
    Longest Registration.pre (D.registrations C) s r ↔
      Longest Registration.pre (fixedPrefixes C) s r := by
  have hno := firstMatch_eq_none.mp h
  constructor
  · rintro ⟨hmem, hmatch, hlong⟩
    rcases List.mem_append.mp hmem with hdev | hfixed
    · exact absurd hmatch (hno r hdev)
    · exact ⟨hfixed, hmatch, fun r' hr' => hlong r' (List.mem_append_right _ hr')⟩
  · rintro ⟨hmem, hmatch, hlong⟩
    refine ⟨List.mem_append_right _ hmem, hmatch, fun r' hr' hmatch' => ?_⟩
    rcases List.mem_append.mp hr' with hdev | hfixed
    · exact absurd hmatch' (hno r' hdev)
    · exact hlong r' hfixed hmatch'

/-- Some other prefix matches, since one is empty. -/
theorem exists_longest_fixed (C : Config) (s : List UInt8) :
    ∃ f, firstMatch Registration.pre (fixedPrefixes C) s = some f ∧
      Longest Registration.pre (fixedPrefixes C) s f := by
  cases hfirst : firstMatch Registration.pre (fixedPrefixes C) s with
  | none =>
      have hempty : (⟨[], [], C.LFILESYS⟩ : Registration) ∈ fixedPrefixes C := by
        simp [fixedPrefixes]
      exact absurd List.nil_prefix (firstMatch_eq_none.mp hfirst _ hempty)
  | some f => exact ⟨f, rfl, (fixedPrefixes_graded C).longest hfirst⟩

/-- The other prefixes of one length that match are the same. -/
theorem longest_fixed_unique {r f : Registration}
    (hf : Longest Registration.pre (fixedPrefixes C) s f)
    (hr : Longest Registration.pre (fixedPrefixes C) s r) : f = r := by
  have hkeys : f.pre = r.pre :=
    (List.prefix_of_prefix_length_le hf.2.1 hr.2.1 (hf.length_eq hr).le).eq_of_length
      (hf.length_eq hr)
  exact List.inj_on_of_nodup_map (fixedPrefixes_nodup C) hf.1 hr.1 hkeys

theorem routed_ordered (h : D.Routed C (naminit D.devtab C tmpstr) s) : D.Ordered C s := by
  rcases h with ⟨r, hlong, hfound⟩
  rw [naminit_find] at hfound
  unfold DeviceTable.Ordered
  cases hdev : firstMatch Registration.pre D.deviceNames s with
  | some d =>
      rw [hdev, Option.some_or] at hfound
      by_cases hr : r.good D.devtab.length
      · rw [if_pos hr] at hfound
        cases hfound
        exact hlong.2.2
      · rw [if_neg hr] at hfound
        cases hfound
  | none =>
      intro f hf
      rw [hdev, Option.none_or] at hfound
      cases longest_fixed_unique hf ((longest_fixed hdev).mp hlong)
      by_cases hgood : r.good D.devtab.length
      · exact Or.inl hgood
      · rw [if_neg hgood] at hfound
        refine Or.inr fun r' hr' hmatch hgood' => ?_
        exact firstMatch_eq_none.mp hfound r' (List.mem_filter.mpr ⟨hr', hgood'⟩) hmatch

theorem ordered_routed (h : D.Ordered C s) : D.Routed C (naminit D.devtab C tmpstr) s := by
  unfold DeviceTable.Ordered at h
  unfold DeviceTable.Routed
  rw [naminit_find]
  cases hdev : firstMatch Registration.pre D.deviceNames s with
  | some d =>
      rw [hdev] at h
      rcases firstMatch_spec hdev with ⟨hmem, hmatch⟩
      refine ⟨d, ⟨List.mem_append_left _ hmem, hmatch, h⟩, ?_⟩
      rw [if_pos (D.good_deviceNames d hmem), Option.some_or]
  | none =>
      rw [hdev] at h
      rcases exists_longest_fixed C s with ⟨f, hfirst, hf⟩
      refine ⟨f, (longest_fixed hdev).mpr hf, ?_⟩
      rw [Option.none_or]
      by_cases hgood : f.good D.devtab.length
      · rw [if_pos hgood]
        exact firstMatch_filter hfirst hgood
      · rw [if_neg hgood]
        rcases h f hf with hyes | hnone
        · exact absurd hyes hgood
        · apply firstMatch_eq_none.mpr
          intro r hr hmatch
          exact hnone r (List.mem_filter.mp hr).1 hmatch (List.mem_filter.mp hr).2

/-- A name is routed by its longest prefix if and only if the prefixes are in the right order
for it. -/
theorem routed_iff (D : DeviceTable) (C : Config) (tmpstr : Nat → UInt8) (s : List UInt8) :
    D.Routed C (naminit D.devtab C tmpstr) s ↔ D.Ordered C s :=
  ⟨routed_ordered, ordered_routed⟩

end

/-- The names of the devices in {lit}`conf.c`, {lit}`"CONSOLE"` to {lit}`"LFILE5"`. -/
def confNames : List (List UInt8) :=
  [[67, 79, 78, 83, 79, 76, 69], [78, 85, 76, 76, 68, 69, 86], [69, 84, 72, 69, 82, 48],
   [78, 65, 77, 69, 83, 80, 65, 67, 69], [82, 68, 73, 83, 75], [82, 65, 77, 48],
   [82, 70, 73, 76, 69, 83, 89, 83], [82, 70, 73, 76, 69, 48], [82, 70, 73, 76, 69, 49],
   [82, 70, 73, 76, 69, 50], [82, 70, 73, 76, 69, 51], [82, 70, 73, 76, 69, 52],
   [82, 70, 73, 76, 69, 53], [82, 70, 73, 76, 69, 54], [82, 70, 73, 76, 69, 55],
   [82, 70, 73, 76, 69, 56], [82, 70, 73, 76, 69, 57], [76, 70, 73, 76, 69, 83, 89, 83],
   [76, 70, 73, 76, 69, 48], [76, 70, 73, 76, 69, 49], [76, 70, 73, 76, 69, 50],
   [76, 70, 73, 76, 69, 51], [76, 70, 73, 76, 69, 52], [76, 70, 73, 76, 69, 53]]

/-- A device table with given names. -/
def deviceTable (names : List (List UInt8)) (hnull : ∀ l ∈ names, 0 ∉ l) : List Dentry :=
  names.attach.zipIdx.map fun x => { dvnum := x.2, dvname := ⟨x.1.1, hnull x.1.1 x.1.2⟩ }

def confTable : DeviceTable where
  devtab := deviceTable confNames (by decide)
  numbers := by decide +kernel
  distinct := by decide +kernel
  fit := by decide +kernel
  room := by decide +kernel

def confDevices : Config where
  NULLDEV := 1
  RFILESYS := 6
  LFILESYS := 17

/-- The name {lit}`"/dev/x"` is not refused, with the devices of {lit}`conf.c`. -/
theorem naminit_misroutes :
    ¬ ∀ (D : DeviceTable) (C : Config) (tmpstr : Nat → UInt8) (s : List UInt8),
      D.Routed C (naminit D.devtab C tmpstr) s := by
  intro hall
  have hordered := routed_ordered
    (hall confTable confDevices (fun _ => 0) [47, 100, 101, 118, 47, 120])
  have hdevices : firstMatch Registration.pre confTable.deviceNames [47, 100, 101, 118, 47, 120] =
      none := by decide +kernel
  have hdev : Longest Registration.pre (fixedPrefixes confDevices) [47, 100, 101, 118, 47, 120]
      ⟨[47, 100, 101, 118, 47], [], SYSERR⟩ := by
    unfold Longest
    decide
  unfold DeviceTable.Ordered at hordered
  rw [hdevices] at hordered
  rcases hordered _ hdev with hgood | hnone
  · exact absurd hgood (by decide)
  · exact hnone ⟨[47], [114, 111, 111, 116, 58], 6⟩ (by decide) (by decide) (by decide +kernel)

end Nam
end BbbXinu
