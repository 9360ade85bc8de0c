import BbbXinu.Properties.DeviceTables
import Mathlib.Data.List.GetD

/-!
# The attributes of devices

A routine of a device is the one of its own declaration, or else the one of its type's entry, or
else {lit}`ioerr`, and in the same way an address and an interrupt with the default 0.  The default
of a routine is copied without its null character into memory as {lit}`malloc` returned it.
-/

namespace BbbXinu
namespace Config

/-- The last of the values that attributes give. -/
def lastOf {β : Type} (f : Attr → Option β) (attrs : List Attr) : Option β :=
  (attrs.filterMap f).getLast?

def Attr.csr? : Attr → Option Int
  | .csr number => some (configAtoi number)
  | _ => none

def Attr.irq? : Attr → Option Int
  | .irq number => some (configAtoi number)
  | _ => none

def Attr.routine? (r : Routine) : Attr → Option (List Char)
  | .routine q id => if q = r then some id.sym else none
  | _ => none

/-- What a device has for an attribute: its own value, or else that of its type's entry. -/
def valueOf {β : Type} (f : Attr → Option β) (default : β) (d : DevDecl) (e : Entry) : β :=
  ((lastOf f d.attrs).or (lastOf f e.decl.attrs)).getD default

/-- The attributes in an entry of the table. -/
structure Attributed (d : DevDecl) (e : Entry) (row : Row) : Prop where
  routine : ∀ r, row.routine r = valueOf (Attr.routine? r) ioerr d e
  csr : row.csr = valueOf Attr.csr? 0 d e
  irq : row.irq = valueOf Attr.irq? 0 d e

/-- The tables are written, and in them each device has its attributes. -/
def AllAttributed (c : Configuration) : Except Stop (State × Tables) → Prop
  | .ok (_, t) => List.Forall₂ (fun d row => ∃ e, c.select d = some e ∧ Attributed d e.1 row)
      c.devices t.devtab
  | .error _ => False

/-- The place behind the characters of {lit}`ioerr`. -/
def ioerrEnd : Fin CONFMAXNM := ⟨5, by decide⟩

/-- The memory in which the default of a routine is ended. -/
def Ended (c : Configuration) (fresh : Nat → Fresh) : Prop :=
  ∀ d ∈ c.devices, ∀ e ∈ c.select d, ∀ r, lastOf (Attr.routine? r) d.attrs = none →
    lastOf (Attr.routine? r) e.1.decl.attrs = none → (fresh e.2).routine r ioerrEnd = NULLCH

section

variable {c : Configuration} {fresh : Nat → Fresh} {file : List Ident} {d : DevDecl}
  {e : Entry × Nat} {f : Routine → Field} {r : Routine} {n : List Char}

/-!
## The last attribute
-/

theorem lastOf_concat {β : Type} (g : Attr → Option β) (attrs : List Attr) (a : Attr) :
    lastOf g (attrs ++ [a]) = (g a).or (lastOf g attrs) := by
  unfold lastOf
  rw [List.filterMap_append]
  cases hg : g a with
  | none => simp [hg]
  | some b => simp [hg]

/-- A field has the last value that it is given. -/
theorem applyAll_last {β : Type} {π : DevEnt → β} {g : Attr → Option β}
    (h : ∀ a e, π (Attr.apply a e) = (g a).getD (π e)) (attrs : List Attr) (e : DevEnt) :
    π (applyAll attrs e) = (lastOf g attrs).getD (π e) := by
  induction attrs using List.reverseRecOn with
  | nil => rfl
  | append_singleton attrs a ih =>
      rw [applyAll_concat, h, ih, lastOf_concat]
      cases g a <;> rfl

/-- A name that fills a field. -/
def padded (n : List Char) : Field := fun i => n.getD i NULLCH

theorem strncpy_field (dst : Field) (n : List Char) : strncpy dst n CONFMAXNM = padded n := by
  funext i
  exact if_pos i.isLt

theorem lastOf_padded (r : Routine) (attrs : List Attr) :
    lastOf (fun a => (a.routine? r).map padded) attrs =
      (lastOf (Attr.routine? r) attrs).map padded := by
  unfold lastOf
  rw [← List.map_filterMap, List.getLast?_map]

theorem applyAll_routine (attrs : List Attr) (e : DevEnt) (r : Routine) :
    (applyAll attrs e).routine r =
      ((lastOf (Attr.routine? r) attrs).map padded).getD (e.routine r) := by
  rw [← lastOf_padded]
  apply applyAll_last (π := fun e => e.routine r)
  intro a e
  cases a with
  | csr number => rfl
  | irq number => rfl
  | routine q id =>
      by_cases hq : q = r
      · simp [Attr.apply, Attr.routine?, hq, strncpy_field]
      · have hr : r ≠ q := fun h => hq h.symm
        simp [Attr.apply, Attr.routine?, hq, upd_of_ne hr]

/-!
## Printed names
-/

theorem printed_eq (f : Routine → Field) (r : Routine) :
    ∃ rest, printed f r = cstring (List.ofFn (f r) ++ rest) := by
  unfold printed
  cases r <;> exact ⟨_, rfl⟩

theorem padded_eq (hlen : n.length < CONFMAXNM) :
    ∃ rest, List.ofFn (padded n) = n ++ NULLCH :: rest := by
  have hfield : List.ofFn (padded n) = n ++ List.replicate (CONFMAXNM - n.length) NULLCH := by
    apply List.ext_getElem
    · simp
      omega
    · intro i hi hi'
      rw [List.getElem_ofFn, padded]
      by_cases hlt : i < n.length
      · rw [List.getElem_append_left hlt, List.getD_eq_getElem _ _ hlt]
      · rw [List.getElem_append_right (Nat.le_of_not_lt hlt),
          List.getD_eq_default _ _ (Nat.le_of_not_lt hlt), List.getElem_replicate]
  obtain ⟨k, hk⟩ := Nat.exists_eq_succ_of_ne_zero (Nat.sub_ne_zero_of_lt hlen)
  rw [hk, List.replicate_succ] at hfield
  exact ⟨_, hfield⟩

/-- A name that was given is printed. -/
theorem printed_padded (hf : f r = padded n) (hnull : NULLCH ∉ n) (hlen : n.length < CONFMAXNM) :
    printed f r = n := by
  obtain ⟨rest, hprinted⟩ := printed_eq f r
  obtain ⟨rest', hpadded⟩ := padded_eq hlen
  rw [hprinted, hf, hpadded, List.append_assoc]
  exact cstring_append_null hnull

/-- The default is printed if the memory behind it is null. -/
theorem printed_default {g : Field} (hf : f r = strncpy g ioerr 5) :
    printed f r = ioerr ↔ g ioerrEnd = NULLCH := by
  obtain ⟨rest, hprinted⟩ := printed_eq f r
  have hfield : ∃ rest', List.ofFn (strncpy g ioerr 5) = ioerr ++ g ioerrEnd :: rest' := by
    rw [List.ofFn_eq_map]
    exact ⟨_, rfl⟩
  obtain ⟨rest', hfield⟩ := hfield
  have hall : ∀ x ∈ ioerr, decide (x ≠ NULLCH) = true := List.all_eq_true.mp rfl
  rw [hprinted, hf, hfield, List.append_assoc]
  unfold cstring
  rw [List.takeWhile_append_of_pos hall, List.append_right_eq_self]
  by_cases hnull : g ioerrEnd = NULLCH
  · simp [hnull]
  · simp [hnull]

/-!
## The table
-/

theorem built_routine (file : List Ident) (fresh : Nat → Fresh) (d : DevDecl) (e : Entry × Nat) (r : Routine) :
    (built file fresh d e).routine r =
      ((lastOf (Attr.routine? r) d.attrs).map padded).getD
        (((lastOf (Attr.routine? r) e.1.decl.attrs).map padded).getD
          (strncpy ((fresh e.2).routine r) ioerr 5)) := by
  rw [built, applyAll_routine]
  congr 1
  exact applyAll_routine _ _ r

theorem lastOf_mem {β : Type} {g : Attr → Option β} {attrs : List Attr} {b : β}
    (h : lastOf g attrs = some b) : ∃ a, g a = some b := by
  obtain ⟨a, -, ha⟩ := List.mem_filterMap.mp (List.mem_of_getLast? h)
  exact ⟨a, ha⟩

/-- The name of a routine fits into its field. -/
theorem printed_given {attrs : List Attr} (hlast : lastOf (Attr.routine? r) attrs = some n)
    (hf : f r = padded n) : printed f r = n := by
  obtain ⟨a, ha⟩ := lastOf_mem hlast
  cases a with
  | csr number => cases ha
  | irq number => cases ha
  | routine q id =>
      change (if q = r then some id.sym else none) = some n at ha
      split at ha
      · cases ha
        exact printed_padded hf id.null_not_mem id.length_sym
      · cases ha

/-- A routine is printed as it ought to be, unless it is the default and that is not ended. -/
theorem printed_built (d : DevDecl) (e : Entry × Nat) (r : Routine) :
    printed (built file fresh d e).routine r = valueOf (Attr.routine? r) ioerr d e.1 ↔
      (lastOf (Attr.routine? r) d.attrs = none → lastOf (Attr.routine? r) e.1.decl.attrs = none →
        (fresh e.2).routine r ioerrEnd = NULLCH) := by
  have hbuilt := built_routine file fresh d e r
  unfold valueOf
  cases hown : lastOf (Attr.routine? r) d.attrs with
  | some n =>
      rw [hown] at hbuilt
      exact iff_of_true (printed_given hown hbuilt) fun h => absurd h (Option.some_ne_none n)
  | none =>
      rw [hown] at hbuilt
      cases hentry : lastOf (Attr.routine? r) e.1.decl.attrs with
      | some n =>
          rw [hentry] at hbuilt
          exact iff_of_true (printed_given hentry hbuilt) fun _ h => absurd h (Option.some_ne_none n)
      | none =>
          rw [hentry] at hbuilt
          have hdefault := printed_default hbuilt
          simpa using hdefault

theorem built_csr (d : DevDecl) (e : Entry × Nat) :
    (built file fresh d e).csr = valueOf Attr.csr? 0 d e.1 := by
  have hlast : ∀ attrs x, (applyAll attrs x).csr = (lastOf Attr.csr? attrs).getD x.csr :=
    applyAll_last fun a x => by cases a <;> rfl
  unfold valueOf built record
  rw [hlast, hlast]
  cases lastOf Attr.csr? d.attrs <;> rfl

theorem built_irq (d : DevDecl) (e : Entry × Nat) :
    (built file fresh d e).irq = valueOf Attr.irq? 0 d e.1 := by
  have hlast : ∀ attrs x, (applyAll attrs x).irq = (lastOf Attr.irq? attrs).getD x.irq :=
    applyAll_last fun a x => by cases a <;> rfl
  unfold valueOf built record
  rw [hlast, hlast]
  cases lastOf Attr.irq? d.attrs <;> rfl

/-- A relation between devices and the columns of the table that the attributes are in. -/
theorem forall₂_devtab {R : DevDecl → (Routine → List Char) × Int × Int → Prop} (s : State)
    (ds : List DevDecl) :
    List.Forall₂ (fun d (row : Row) => R d (row.routine, row.csr, row.irq)) ds
        (generate s).devtab ↔
      List.Forall₂ (fun d (x : DevEnt) => R d (printed x.routine, x.csr, x.irq)) ds s.devs := by
  have hcolumn := devtab_map (g := fun row => (row.routine, row.csr, row.irq))
    (π := fun x => (printed x.routine, x.csr, x.irq)) s fun _ _ => rfl
  rw [setMinors_map fun _ _ => rfl] at hcolumn
  have hrows := List.forall₂_map_right_iff (R := R) (l := ds)
    (f := fun row : Row => (row.routine, row.csr, row.irq)) (u := (generate s).devtab)
  rw [hcolumn] at hrows
  exact hrows.symm.trans List.forall₂_map_right_iff

theorem forall₂_buildAll (file : List Ident) (fresh : Nat → Fresh)
    {R : DevDecl → Entry × Nat → DevEnt → Prop} {f : DevDecl → Option (Entry × Nat)}
    {ds : List DevDecl} (h : AllFound f ds) :
    List.Forall₂ (fun d x => ∃ e, f d = some e ∧ R d e x) ds (buildAll file fresh f ds) ↔
      ∀ d ∈ ds, ∀ e ∈ f d, R d e (built file fresh d e) := by
  induction ds with
  | nil => simp [buildAll]
  | cons d ds ih =>
      have hd := h d List.mem_cons_self
      obtain ⟨e, he⟩ := Option.isSome_iff_exists.mp hd
      rw [buildAll, he]
      dsimp only
      rw [List.forall₂_cons, ih ((allFound_cons hd).mp h), List.forall_mem_cons]
      simp [he]

/-- The attributes are right if the default names of the routines are ended. -/
theorem attributed_iff (fresh : Nat → Fresh) (h : AllFound c.select c.devices) :
    AllAttributed c (.ok (c.final fresh, generate (c.final fresh))) ↔ Ended c fresh := by
  have hrows := forall₂_devtab (R := fun d v => ∃ e, c.select d = some e ∧
    (∀ r, v.1 r = valueOf (Attr.routine? r) ioerr d e.1) ∧
      v.2.1 = valueOf Attr.csr? 0 d e.1 ∧ v.2.2 = valueOf Attr.irq? 0 d e.1)
    (c.final fresh) c.devices
  have hdevs := forall₂_buildAll c.idents fresh (R := fun d e x =>
    (∀ r, printed x.routine r = valueOf (Attr.routine? r) ioerr d e.1) ∧
      x.csr = valueOf Attr.csr? 0 d e.1 ∧ x.irq = valueOf Attr.irq? 0 d e.1) h
  have hattributed : ∀ d (e : Entry × Nat) (row : Row), Attributed d e.1 row ↔
      (∀ r, row.routine r = valueOf (Attr.routine? r) ioerr d e.1) ∧
        row.csr = valueOf Attr.csr? 0 d e.1 ∧ row.irq = valueOf Attr.irq? 0 d e.1 := by
    intro d e row
    constructor
    · intro hrow
      exact ⟨hrow.routine, hrow.csr, hrow.irq⟩
    · intro hrow
      exact ⟨hrow.1, hrow.2.1, hrow.2.2⟩
  unfold AllAttributed Ended
  simp only [hattributed]
  apply (hrows.trans hdevs).trans
  simp only [printed_built, built_csr, built_irq, and_true]

end

/-- Each device of an accepted file has its attributes just when no search of the types follows a
pointer that was not set, and the default names of the routines are ended. -/
theorem all_attributed_iff (fresh : Nat → Fresh) (c : Configuration) (h : c.Distinct)
    (haccepted : ∃ r, config (fun _ => Fresh.zero) c = .ok r) :
    AllAttributed c (config fresh c) ↔
      (∀ k, k + 1 < c.entries.length → (fresh k).next = 0) ∧ Ended c fresh := by
  have hzero := config_eq (fun _ => Fresh.zero) h
  obtain ⟨r, hr⟩ := haccepted
  rw [hr] at hzero
  have hfound : Fits (c.identsRead c.select) ∧ AllFound c.select c.devices := by
    split at hzero
    · rename_i hread
      split at hzero
      · rename_i hall
        exact ⟨hread.2, hall⟩
      · split at hzero <;> cases hzero
    · cases hzero
  rw [config_eq fresh h, ← ends_iff]
  by_cases hends : Ends fresh 0 c.entries.length
  · rw [if_pos ⟨hends, hfound.1⟩, if_pos hfound.2, attributed_iff fresh hfound.2]
    exact (and_iff_right hends).symm
  · rw [if_neg fun hand => hends hand.1]
    exact iff_of_false id fun hand => hends hand.1

theorem all_attributed_zero :
    AllAttributed (oneDevice ⟨['t'], rfl⟩ ⟨['d'], rfl⟩ ⟨['x'], rfl⟩ (some ⟨['d'], rfl⟩))
        (config (fun _ => Fresh.zero)
          (oneDevice ⟨['t'], rfl⟩ ⟨['d'], rfl⟩ ⟨['x'], rfl⟩ (some ⟨['d'], rfl⟩))) ↔
      (∀ k, k + 1 < 1 → Fresh.zero.next = 0) ∧
        Ended (oneDevice ⟨['t'], rfl⟩ ⟨['d'], rfl⟩ ⟨['x'], rfl⟩ (some ⟨['d'], rfl⟩))
          fun _ => Fresh.zero :=
  all_attributed_iff _ _ (oneDevice_distinct _ _ _ _) ⟨_, rfl⟩

/-- The default of a routine in memory that is full of letters. -/
theorem not_all_attributed : ¬∀ (fresh : Nat → Fresh) (c : Configuration), c.Distinct →
    (∃ r, config (fun _ => Fresh.zero) c = .ok r) → AllAttributed c (config fresh c) := by
  intro h
  have hall := h (fun _ => { next := 0, routine := fun _ _ => 'x' })
    (oneDevice ⟨['t'], rfl⟩ ⟨['d'], rfl⟩ ⟨['x'], rfl⟩ (some ⟨['d'], rfl⟩))
    (oneDevice_distinct _ _ _ _) ⟨_, rfl⟩
  cases hall with
  | cons hrow _ =>
      obtain ⟨e, he, hattributed⟩ := hrow
      cases he
      exact absurd (hattributed.routine .intr) (by decide)

end Config
end BbbXinu
