import BbbXinu.Properties.ConfigRuns

/-!
# The device tables

Devices are numbered in the order of their declarations, and those of a type by themselves.  A
device is built from an entry of its type; without an {lit}`on` that ought to be the first one, but
the value for a missing {lit}`on` is the place of a symbol, that of the first name in the file.
-/

namespace BbbXinu
namespace Config

open SymbolTable

/-!
## Numbers
-/

section

variable {α : Type} {key : α → Nat} {ds : List α} {devs : List DevEnt} {symtab : List SymEnt}
  {k i : Nat}

/-- The number of devices that a symbol counts. -/
def occursAt (symtab : List SymEnt) (k : Nat) : Nat := (symtab[k]?.map SymEnt.occurs).getD 0

/-- The table with one more device of a type. -/
def countType (symtab : List SymEnt) (k : Nat) : List SymEnt :=
  symtab.modify k fun x => { x with occurs := x.occurs + 1 }

theorem setMinors_cons (e : DevEnt) (devs : List DevEnt) (symtab : List SymEnt) :
    setMinors (e :: devs) symtab =
      ({ e with minor := occursAt symtab e.tnum } :: (setMinors devs (countType symtab e.tnum)).1,
        (setMinors devs (countType symtab e.tnum)).2) := rfl

theorem occursAt_countType_self (h : k < symtab.length) :
    occursAt (countType symtab k) k = occursAt symtab k + 1 := by
  simp [occursAt, countType, List.getElem?_eq_getElem h]

theorem occursAt_countType_of_ne (h : i ≠ k) :
    occursAt (countType symtab i) k = occursAt symtab k := by
  simp [occursAt, countType, List.getElem?_modify_ne, h]

theorem length_countType : (countType symtab i).length = symtab.length :=
  List.length_modify _ _ _

theorem occursAt_syms (ids : List Ident) (k : Nat) : occursAt (syms ids) k = 0 := by
  unfold occursAt syms
  rw [List.getElem?_map]
  cases (symbols (ids.map Ident.sym))[k]? <;> rfl

/-- Apart from its minor number a device is left as it is. -/
theorem setMinors_map {β : Type} {π : DevEnt → β}
    (h : ∀ e n, π { e with minor := n } = π e) (devs : List DevEnt) (symtab : List SymEnt) :
    (setMinors devs symtab).1.map π = devs.map π := by
  induction devs generalizing symtab with
  | nil => rfl
  | cons e devs ih =>
      rw [setMinors_cons, List.map_cons, List.map_cons, ih, h]

/-- The devices of a type get consecutive numbers. -/
theorem setMinors_minors (h : List.Forall₂ (fun d x => x.tnum = key d) ds devs)
    (hlt : ∀ d ∈ ds, key d < symtab.length) (k : Nat) :
    ((ds.zip ((setMinors devs symtab).1.map DevEnt.minor)).filter fun r => key r.1 = k).map
      Prod.snd = List.range' (occursAt symtab k) (ds.countP fun d => key d = k) := by
  induction h generalizing symtab with
  | nil => rfl
  | @cons d x ds devs hkey _ ih =>
      rw [List.forall_mem_cons] at hlt
      have hlater : ∀ d ∈ ds, key d < (countType symtab x.tnum).length := by
        rw [length_countType]
        exact hlt.2
      have hrest := ih hlater
      rw [setMinors_cons]
      simp only [List.map_cons, List.zip_cons_cons, List.filter_cons, List.countP_cons]
      by_cases hk : key d = k
      · have hnext : occursAt (countType symtab x.tnum) k = occursAt symtab k + 1 := by
          rw [hkey, hk]
          exact occursAt_countType_self (hk ▸ hlt.1)
        rw [hnext] at hrest
        rw [hkey, hk] at hrest ⊢
        simp only [decide_true, if_true, List.map_cons, hrest, List.range'_succ]
      · have hnext : occursAt (countType symtab x.tnum) k = occursAt symtab k := by
          apply occursAt_countType_of_ne
          rw [hkey]
          exact hk
        rw [hnext] at hrest
        simp [hk, hrest]

/-- The symbols count the devices. -/
theorem setMinors_symtab (devs : List DevEnt) (symtab : List SymEnt) (i : Nat) :
    (setMinors devs symtab).2[i]? = symtab[i]?.map fun x =>
      { x with occurs := x.occurs + devs.countP fun e => e.tnum = i } := by
  induction devs generalizing symtab with
  | nil => simp [setMinors]
  | cons e devs ih =>
      rw [setMinors_cons, ih, countType]
      by_cases h : e.tnum = i
      · rw [h, List.getElem?_modify_eq, Option.map_eq_map, Option.map_map]
        simp [Function.comp_def, h, Nat.add_assoc, Nat.add_comm 1]
      · rw [List.getElem?_modify_ne _ _ h]
        simp [h]

theorem symName_setMinors (devs : List DevEnt) (symtab : List SymEnt) (i : Nat) :
    symName (setMinors devs symtab).2 i = symName symtab i := by
  unfold symName
  rw [setMinors_symtab, Option.map_map]
  rfl

/-- A column of the table. -/
theorem devtab_map {β : Type} {g : Row → β} {π : DevEnt → β} (s : State)
    (hrow : ∀ n e, g (row (setMinors s.devs s.symtab).2 n e) = π e) :
    (generate s).devtab.map g = (setMinors s.devs s.symtab).1.map π := by
  unfold generate
  dsimp only
  rw [List.map_map]
  have hfst : (setMinors s.devs s.symtab).1.map π =
      ((setMinors s.devs s.symtab).1.zipIdx.map Prod.fst).map π := by rw [List.zipIdx_map_fst]
  rw [hfst, List.map_map]
  exact List.map_congr_left fun e _ => hrow e.2 e.1

theorem devtab_numbers (s : State) :
    (generate s).devtab.map Row.number = List.range s.devs.length := by
  have hlength : (setMinors s.devs s.symtab).1.length = s.devs.length := by
    have hmap := congrArg List.length
      (setMinors_map (π := fun e => e.tnum) (fun _ _ => rfl) s.devs s.symtab)
    rwa [List.length_map, List.length_map] at hmap
  unfold generate
  dsimp only
  rw [List.map_map]
  change (setMinors s.devs s.symtab).1.zipIdx.map Prod.snd = _
  rw [List.zipIdx_map_snd, hlength, List.range_eq_range']

end

/-!
## What the tables ought to be
-/

/-- The entry that a device is to be built from, with its place: the one of its type for the device
of its {lit}`on`, or else the first one of its type. -/
def Configuration.entryFor (c : Configuration) (d : DevDecl) : Option (Entry × Nat) :=
  c.entries.zipIdx.find? fun e =>
    e.1.type.sym = d.type.sym ∧ ∀ on ∈ d.on, e.1.decl.device.sym = on.sym

/-- The devices before the first one for which there is no entry. -/
def Configuration.known (c : Configuration) : List DevDecl :=
  c.devices.takeWhile fun d => (c.entryFor d).isSome

/-- The number of devices of a type. -/
def Configuration.count (c : Configuration) (type : List Char) : Nat :=
  c.devices.countP fun d => d.type.sym = type

/-- A device is a copy of the type's entry, under its own name and with its own attributes. -/
def BuiltFrom (c : Configuration) (s : State) (d : DevDecl) (x : DevEnt) : Prop :=
  ∃ e, c.entryFor d = some e ∧ ∃ node n, s.ftypes[e.2]? = some node ∧
    symName s.symtab n = d.name.sym ∧ x = applyAll d.attrs { node with name := some n }

/-- The entries of the types are in their order, and each device is built from its entry. -/
structure Kept (c : Configuration) (s : State) : Prop where
  types : s.ftypes.map (fun x => (symName s.symtab x.tname, symName s.symtab x.device)) =
    c.entries.map Entry.key
  devices : List.Forall₂ (BuiltFrom c s) c.known s.devs

/-- Devices and minor devices are numbered in the order of the declarations. -/
structure Numbered (c : Configuration) (t : Tables) : Prop where
  numbers : t.devtab.map Row.number = List.range c.devices.length
  names : t.devtab.map Row.name = c.devices.map fun d => d.name.sym
  types : t.devtab.map Row.type = c.devices.map fun d => d.type.sym
  ndevs : t.ndevs = c.devices.length
  minors : ∀ type, ((c.devices.zip (t.devtab.map Row.minor)).filter fun r =>
    r.1.type.sym = type).map Prod.snd = List.range (c.count type)
  sizes : ∀ type n, (type, n) ∈ t.sizes ↔ 0 < n ∧ n = c.count type

/-- The program writes the tables if there is an entry for each device, and otherwise it exits at
the first device for which there is none. -/
def Right (c : Configuration) : Except Stop (State × Tables) → Prop
  | .ok (s, t) => AllFound c.entryFor c.devices ∧ Kept c s ∧ Numbered c t
  | .error (.exit s) => ¬AllFound c.entryFor c.devices ∧ Kept c s
  | .error .undefined => False

/-- Where the program does what it ought to.  Memory counts in which a search of the types goes on,
and without an {lit}`on` the first entry of the type has to be for the first name of the file. -/
structure Sound (c : Configuration) (fresh : Nat → Fresh) : Prop where
  room : Fits (c.identsRead c.entryFor)
  next : ∀ k, k + 1 < c.entries.length → (fresh k).next = 0
  last : ¬AllFound c.entryFor c.devices → ∀ k, k + 1 = c.entries.length → (fresh k).next = 0
  first : ∀ d ∈ c.known, d.on = none → ∀ e ∈ c.entryFor d, e.1.decl.device.sym = c.firstName

section

variable {c : Configuration} {d : DevDecl} {ds : List DevDecl} {e : Entry × Nat}
  {fresh : Nat → Fresh} {file ids : List Ident} {id : Ident}

/-!
## Entries
-/

theorem find?_eq_of_imp {α : Type} {p q : α → Bool} {l : List α} (himp : ∀ x, p x → q x)
    (hfirst : ∀ x, l.find? q = some x → p x) : l.find? p = l.find? q := by
  induction l with
  | nil => rfl
  | cons x l ih =>
      cases hq : q x with
      | true =>
          have hfound : (x :: l).find? q = some x := List.find?_cons_of_pos hq
          rw [hfound, List.find?_cons_of_pos (hfirst x hfound)]
      | false =>
          have hp : ¬p x = true := by
            intro hp
            have hqx := himp x hp
            rw [hq] at hqx
            cases hqx
          have hnot : ¬q x = true := by
            rw [hq]
            exact Bool.false_ne_true
          rw [List.find?_cons_of_neg hp, List.find?_cons_of_neg hnot]
          apply ih
          intro y hy
          apply hfirst y
          rw [List.find?_cons_of_neg hnot]
          exact hy

theorem select_sound (h : c.select d = some e) :
    e.1.type.sym = d.type.sym ∧
      e.1.decl.device.sym = (d.on.map Ident.sym).getD c.firstName := by
  simpa using List.find?_some h

theorem entryFor_sound (h : c.entryFor d = some e) :
    e.1.type.sym = d.type.sym ∧ ∀ on ∈ d.on, e.1.decl.device.sym = on.sym := by
  simpa using List.find?_some h

/-- What {lit}`mkdev` finds is an entry, but not always the first one. -/
theorem entryFor_of_select (h : (c.select d).isSome) : (c.entryFor d).isSome := by
  obtain ⟨e, he⟩ := Option.isSome_iff_exists.mp h
  obtain ⟨htype, hdevice⟩ := select_sound he
  unfold Configuration.entryFor
  rw [List.find?_isSome]
  exists e
  constructor
  · exact List.mem_of_find?_eq_some he
  · apply decide_eq_true
    constructor
    · exact htype
    · intro on hon
      rw [hdevice, Option.mem_def.mp hon]
      rfl

theorem select_eq
    (h : d.on = none → ∀ e ∈ c.entryFor d, e.1.decl.device.sym = c.firstName) :
    c.select d = c.entryFor d := by
  apply find?_eq_of_imp
  · intro e he
    obtain ⟨htype, hdevice⟩ := of_decide_eq_true he
    apply decide_eq_true
    constructor
    · exact htype
    · intro on hon
      rw [hdevice, Option.mem_def.mp hon]
      rfl
  · intro e he
    have hentry := entryFor_sound he
    apply decide_eq_true
    constructor
    · exact hentry.1
    · cases hon : d.on with
      | none => exact h hon e he
      | some on => exact hentry.2 on hon

/-!
## Reading
-/

/-- Two ways to find entries that agree before the first device without one. -/
theorem agree {f g : DevDecl → Option (Entry × Nat)} (himp : ∀ d, (g d).isSome → (f d).isSome)
    (h : ∀ d ∈ ds.takeWhile fun d => (f d).isSome, g d = f d) :
    readBy g ds = readBy f ds ∧ (AllFound g ds ↔ AllFound f ds) ∧
      ∀ file fresh, buildAll file fresh g ds = buildAll file fresh f ds := by
  induction ds with
  | nil => exact ⟨rfl, iff_of_true allFound_nil allFound_nil, fun _ _ => rfl⟩
  | cons d ds ih =>
      cases hf : f d with
      | none =>
          have hg : g d = none := by
            rw [← Option.not_isSome_iff_eq_none]
            intro hg
            have hsome := himp d hg
            rw [hf] at hsome
            cases hsome
          have hnone : ∀ {k : DevDecl → Option (Entry × Nat)}, k d = none →
              ¬AllFound k (d :: ds) := by
            intro k hk hall
            have hsome := hall d List.mem_cons_self
            rw [hk] at hsome
            cases hsome
          exact ⟨by simp [readBy, hf, hg], iff_of_false (hnone hg) (hnone hf),
            fun file fresh => by simp [buildAll, hf, hg]⟩
      | some e =>
          have hsome : (f d).isSome = true := by
            rw [hf]
            rfl
          rw [List.takeWhile_cons, if_pos hsome, List.forall_mem_cons] at h
          have hg : g d = some e := h.1.trans hf
          obtain ⟨hread, hall, hbuild⟩ := ih h.2
          exact ⟨by simp [readBy, hf, hg, hread],
            by rw [allFound_cons hsome, allFound_cons (by rw [hg]; rfl), hall],
            fun file fresh => by simp [buildAll, hf, hg, hbuild]⟩

theorem prefix_readBy (select : DevDecl → Option (Entry × Nat)) (ds : List DevDecl) :
    readBy select ds <+: ds.flatMap DevDecl.idents := by
  induction ds with
  | nil => exact List.prefix_refl _
  | cons d ds ih =>
      unfold readBy
      rw [List.flatMap_cons]
      split
      · exact (List.prefix_append_right_inj _).mpr ih
      · exact (List.prefix_append d.header (attrIdents d.attrs)).trans (List.prefix_append _ _)

theorem prefix_identsRead (c : Configuration) (select : DevDecl → Option (Entry × Nat)) :
    c.identsRead select <+: c.idents :=
  (List.prefix_append_right_inj _).mpr (prefix_readBy select c.devices)

theorem symName_place_mono (h : ids <+: file) (hid : id ∈ ids) :
    symName (syms ids) (place file id.sym) = id.sym := by
  rw [← place_mono h hid, symName_place hid]

theorem mem_typeIdents {e : Entry} (h : e ∈ c.entries) :
    e.type ∈ c.typeIdents ∧ e.decl.device ∈ c.typeIdents := by
  obtain ⟨t, ht, he⟩ := List.mem_flatMap.mp h
  obtain ⟨o, ho, rfl⟩ := List.mem_map.mp he
  constructor
  · exact List.mem_flatMap.mpr ⟨t, ht, List.mem_cons_self⟩
  · apply List.mem_flatMap.mpr
    exists t
    constructor
    · exact ht
    · apply List.mem_cons_of_mem
      exact List.mem_flatMap.mpr ⟨o, ho, List.mem_cons_self⟩

theorem getElem?_records (file : List Ident) (fresh : Nat → Fresh) {e : Entry} {i : Nat}
    {es : List Entry} (h : es[i]? = some e) :
    (records file fresh es)[i]? = some (record file (fresh i) e) := by
  simp [records, h]

theorem length_entry_take (id : Ident) : id.sym.take (CONFMAXNM - 1) = id.sym := by
  simp [Ident.sym, List.take_take]

theorem name_mem_readBy {f : DevDecl → Option (Entry × Nat)}
    (h : d ∈ ds.takeWhile fun d => (f d).isSome) : d.name ∈ readBy f ds := by
  induction ds with
  | nil => cases h
  | cons d' ds ih =>
      cases hf : f d' with
      | none => simp [hf] at h
      | some e =>
          rw [List.takeWhile_cons, if_pos (by rw [hf]; rfl)] at h
          rw [readBy, if_pos (by rw [hf]; rfl)]
          cases List.mem_cons.mp h with
          | inl heq =>
              rw [heq]
              exact List.mem_append_left _ List.mem_cons_self
          | inr hlater => exact List.mem_append_right _ (ih hlater)

/-!
## Built devices
-/

theorem buildAll_forall₂ {R : DevDecl → DevEnt → Prop} {f : DevDecl → Option (Entry × Nat)}
    (h : ∀ d ∈ ds.takeWhile fun d => (f d).isSome, ∀ e, f d = some e →
      R d (built file fresh d e)) :
    List.Forall₂ R (ds.takeWhile fun d => (f d).isSome) (buildAll file fresh f ds) := by
  induction ds with
  | nil => exact List.Forall₂.nil
  | cons d ds ih =>
      cases hf : f d with
      | none => simp [buildAll, hf]
      | some e =>
          have hsome : (f d).isSome = true := by
            rw [hf]
            rfl
          rw [List.takeWhile_cons, if_pos hsome] at h ⊢
          rw [List.forall_mem_cons] at h
          rw [buildAll, hf]
          exact List.Forall₂.cons (h.1 e hf) (ih h.2)

/-- The program does what it ought to with the types, and with the devices for which it finds the
right entry. -/
theorem kept_final (fresh : Nat → Fresh) (h : ∀ d ∈ c.known, c.select d = c.entryFor d) :
    Kept c (c.final fresh) := by
  have hagree := agree (fun _ => entryFor_of_select) h
  have hpre := prefix_identsRead c c.select
  constructor
  · change (records c.idents fresh c.entries).map (fun x =>
      (symName (syms (c.identsRead c.select)) x.tname,
        symName (syms (c.identsRead c.select)) x.device)) = _
    have hfst : c.entries.map Entry.key = (c.entries.zipIdx.map Prod.fst).map Entry.key := by
      rw [List.zipIdx_map_fst]
    rw [hfst, records, List.map_map, List.map_map]
    apply List.map_congr_left
    intro e he
    have hmem := mem_typeIdents (List.mem_of_getElem? (List.mem_zipIdx_iff_getElem?.mp he))
    have htype := symName_place_mono hpre (List.mem_append_left _ hmem.1)
    have hdevice := symName_place_mono hpre (List.mem_append_left _ hmem.2)
    simp [record, initattr, Entry.key, htype, hdevice]
  · change List.Forall₂ _ c.known (buildAll c.idents fresh c.select c.devices)
    rw [hagree.2.2]
    apply buildAll_forall₂
    intro d hd e he
    have hname : d.name ∈ c.identsRead c.select := by
      unfold Configuration.identsRead
      rw [hagree.1]
      exact List.mem_append_right _ (name_mem_readBy hd)
    have hget := List.mem_zipIdx_iff_getElem?.mp (List.mem_of_find?_eq_some he)
    exact ⟨e, he, _, _, getElem?_records _ _ hget, symName_place_mono hpre hname, rfl⟩

/-- Where the devices are built from the right entries, those are for the first name. -/
theorem first_of_built (h : List.Forall₂ (BuiltFrom c (c.final fresh))
    (ds.takeWhile fun d => (c.entryFor d).isSome) (buildAll c.idents fresh c.select ds)) :
    ∀ d ∈ ds.takeWhile fun d => (c.entryFor d).isSome, d.on = none →
      ∀ e ∈ c.entryFor d, e.1.decl.device.sym = c.firstName := by
  induction ds with
  | nil => exact fun d hd => absurd hd List.not_mem_nil
  | cons d ds ih =>
      cases hentry : c.entryFor d with
      | none => simp [hentry]
      | some e =>
          rw [List.takeWhile_cons, if_pos (by rw [hentry]; rfl)] at h ⊢
          cases hselect : c.select d with
          | none =>
              rw [buildAll, hselect] at h
              cases h
          | some e' =>
              rw [buildAll, hselect] at h
              cases h with
              | cons hhead htail =>
                  rw [List.forall_mem_cons]
                  constructor
                  · intro hon e₁ he₁
                    obtain ⟨e₂, he₂, node, n, hget, -, hbuilt⟩ := hhead
                    have hsame := Option.some.inj (he₂.symm.trans (Option.mem_def.mp he₁))
                    have hplace := List.mem_zipIdx_iff_getElem?.mp
                      (List.mem_of_find?_eq_some he₂)
                    have hnode := (getElem?_records c.idents fresh hplace).symm.trans hget
                    have hdevice := congrArg DevEnt.device hbuilt
                    rw [← Option.some.inj hnode] at hdevice
                    simp only [built, record, applyAll_device, initattr] at hdevice
                    have hmem := List.mem_of_getElem? (List.mem_zipIdx_iff_getElem?.mp
                      (List.mem_of_find?_eq_some hselect))
                    have hidents := List.mem_append_left (c.devices.flatMap DevDecl.idents)
                      (mem_typeIdents hmem).2
                    have hsound := (select_sound hselect).2
                    rw [hon] at hsound
                    rw [← hsame, ← (place_inj hidents).mp hdevice]
                    exact hsound
                  · exact ih htail

/-!
## Numbered devices
-/

theorem identsRead_of_allFound {select : DevDecl → Option (Entry × Nat)}
    (h : AllFound select c.devices) : c.identsRead select = c.idents := by
  unfold Configuration.identsRead
  rw [readBy_of_allFound h]
  rfl

theorem takeWhile_of_allFound {f : DevDecl → Option (Entry × Nat)} (h : AllFound f ds) :
    (ds.takeWhile fun d => (f d).isSome) = ds :=
  List.takeWhile_eq_self_iff.mpr h

theorem mem_idents (h : d ∈ c.devices) : d.name ∈ c.idents ∧ d.type ∈ c.idents := by
  have hmem : ∀ id ∈ d.idents, id ∈ c.idents := fun id hid =>
    List.mem_append_right _ (List.mem_flatMap.mpr ⟨d, h, hid⟩)
  constructor
  · exact hmem _ List.mem_cons_self
  · exact hmem _ (List.mem_cons_of_mem _ List.mem_cons_self)

/-- The devices have the names and the types of their declarations. -/
theorem devs_columns (fresh : Nat → Fresh) (h : AllFound c.select c.devices) :
    (c.final fresh).devs.map DevEnt.name =
        c.devices.map (fun d => some (place c.idents d.name.sym)) ∧
      (c.final fresh).devs.map DevEnt.tname =
        c.devices.map (fun d => place c.idents d.type.sym) ∧
      (c.final fresh).devs.map DevEnt.tnum =
        c.devices.map (fun d => place c.idents d.type.sym) := by
  have hbuilt : List.Forall₂ (fun d x => x.name = some (place c.idents d.name.sym) ∧
      x.tname = place c.idents d.type.sym ∧ x.tnum = place c.idents d.type.sym)
      c.devices (c.final fresh).devs := by
    rw [← takeWhile_of_allFound h]
    change List.Forall₂ _ _ (buildAll c.idents fresh c.select c.devices)
    apply buildAll_forall₂
    intro d _ e he
    simp [built, record, initattr, (select_sound he).1]
  have hcolumn : ∀ {β : Type} (π : DevEnt → β) (ρ : DevDecl → β),
      List.Forall₂ (fun d x => π x = ρ d) c.devices (c.final fresh).devs →
        (c.final fresh).devs.map π = c.devices.map ρ := by
    intro β π ρ hall
    rw [← List.forall₂_eq_eq_eq, List.forall₂_map_left_iff, List.forall₂_map_right_iff]
    exact hall.flip
  constructor
  · exact hcolumn _ _ (hbuilt.imp fun _ _ hx => hx.1)
  · constructor
    · exact hcolumn _ _ (hbuilt.imp fun _ _ hx => hx.2.1)
    · exact hcolumn _ _ (hbuilt.imp fun _ _ hx => hx.2.2)

theorem place_type_eq (h : d ∈ c.devices) (type : List Char) :
    place c.idents d.type.sym = place c.idents type ↔ d.type.sym = type :=
  place_inj (mem_idents h).2

/-- A symbol counts the devices of its type. -/
theorem count_devs (fresh : Nat → Fresh) (h : AllFound c.select c.devices) (type : List Char) :
    ((c.final fresh).devs.countP fun e => e.tnum = place c.idents type) = c.count type := by
  have hcount : ((c.final fresh).devs.countP fun e => e.tnum = place c.idents type) =
      ((c.final fresh).devs.map DevEnt.tnum).countP fun k => k = place c.idents type := by
    rw [List.countP_map]
    rfl
  rw [hcount, (devs_columns fresh h).2.2, List.countP_map]
  apply List.countP_congr
  intro d hd
  simp only [Function.comp_apply, decide_eq_true_eq]
  exact place_type_eq hd type

theorem minors_final (fresh : Nat → Fresh) (h : AllFound c.select c.devices)
    (type : List Char) :
    ((c.devices.zip ((generate (c.final fresh)).devtab.map Row.minor)).filter fun r =>
      r.1.type.sym = type).map Prod.snd = List.range (c.count type) := by
  have htnum : List.Forall₂ (fun (d : DevDecl) (x : DevEnt) =>
      x.tnum = place c.idents d.type.sym) c.devices (c.final fresh).devs := by
    have hcolumn := (devs_columns fresh h).2.2
    rw [← List.forall₂_eq_eq_eq, List.forall₂_map_left_iff, List.forall₂_map_right_iff]
      at hcolumn
    exact hcolumn.flip
  have hsymtab : (c.final fresh).symtab = syms c.idents := by
    change syms (c.identsRead c.select) = _
    rw [identsRead_of_allFound h]
  have hlt : ∀ d ∈ c.devices, place c.idents d.type.sym < (c.final fresh).symtab.length := by
    intro d hd
    rw [hsymtab]
    exact place_lt (mem_idents hd).2
  have hminors := setMinors_minors htnum hlt (place c.idents type)
  have hzero : occursAt (c.final fresh).symtab (place c.idents type) = 0 := by
    rw [hsymtab]
    exact occursAt_syms _ _
  have hcount : (c.devices.countP fun d =>
      place c.idents d.type.sym = place c.idents type) = c.count type := by
    apply List.countP_congr
    intro d hd
    rw [decide_eq_true_eq, decide_eq_true_eq]
    exact place_type_eq hd type
  rw [hzero, hcount, ← List.range_eq_range'] at hminors
  rw [← hminors, devtab_map (π := DevEnt.minor) _ fun _ _ => rfl]
  congr 1
  apply List.filter_congr
  intro r hr
  rw [decide_eq_decide]
  exact (place_type_eq (List.of_mem_zip hr).1 type).symm

theorem sizes_final (fresh : Nat → Fresh) (h : AllFound c.select c.devices)
    (type : List Char) (n : Nat) :
    (type, n) ∈ (generate (c.final fresh)).sizes ↔ 0 < n ∧ n = c.count type := by
  have hsymtab : (c.final fresh).symtab = syms c.idents := by
    change syms (c.identsRead c.select) = _
    rw [identsRead_of_allFound h]
  have hget : ∀ i, (setMinors (c.final fresh).devs (c.final fresh).symtab).2[i]? =
      (symbols (c.idents.map Ident.sym))[i]?.map fun w =>
        (⟨w, (c.final fresh).devs.countP fun e => e.tnum = i⟩ : SymEnt) := by
    intro i
    rw [setMinors_symtab, hsymtab, syms, List.getElem?_map, Option.map_map]
    simp [Function.comp_def]
  change (type, n) ∈ ((setMinors (c.final fresh).devs (c.final fresh).symtab).2.filter
    fun x => 0 < x.occurs).map (fun x => (x.name.take (CONFMAXNM - 1), x.occurs)) ↔ _
  rw [List.mem_map]
  constructor
  · rintro ⟨x, hx, heq⟩
    obtain ⟨hmem, hpos⟩ := List.mem_filter.mp hx
    obtain ⟨i, hi⟩ := List.mem_iff_getElem?.mp hmem
    rw [hget] at hi
    obtain ⟨w, hw, rfl⟩ := Option.map_eq_some_iff.mp hi
    obtain ⟨id, -, rfl⟩ := List.mem_map.mp (mem_symbols.mp (List.mem_of_getElem? hw))
    have hi : place c.idents id.sym = i := position_of_getElem? hw
    rw [← hi, count_devs fresh h, length_entry_take] at heq
    rw [← hi, count_devs fresh h] at hpos
    cases heq
    exact ⟨of_decide_eq_true hpos, rfl⟩
  · rintro ⟨hpos, rfl⟩
    obtain ⟨d, hd, htype⟩ := List.countP_pos_iff.mp hpos
    rw [decide_eq_true_eq] at htype
    have hw : (symbols (c.idents.map Ident.sym))[place c.idents d.type.sym]? = some d.type.sym :=
      getElem?_position (List.mem_map_of_mem (mem_idents hd).2)
    have hentry := hget (place c.idents d.type.sym)
    rw [hw, count_devs fresh h, htype] at hentry
    exact ⟨_, List.mem_filter.mpr ⟨List.mem_of_getElem? hentry, decide_eq_true hpos⟩,
      by rw [← htype, length_entry_take]⟩

/-- The tables of a file in which an entry is found for each device. -/
theorem numbered_final (fresh : Nat → Fresh) (h : AllFound c.select c.devices) :
    Numbered c (generate (c.final fresh)) := by
  obtain ⟨hname, htname, -⟩ := devs_columns fresh h
  have hlength : (c.final fresh).devs.length = c.devices.length := by
    have hmap := congrArg List.length hname
    rwa [List.length_map, List.length_map] at hmap
  have hsymtab : (c.final fresh).symtab = syms c.idents := by
    change syms (c.identsRead c.select) = _
    rw [identsRead_of_allFound h]
  have hsym : ∀ id ∈ c.idents, symName (c.final fresh).symtab (place c.idents id.sym) = id.sym := by
    intro id hid
    rw [hsymtab]
    exact symName_place hid
  constructor
  · rw [devtab_numbers, hlength]
  · have hcolumn := devtab_map (g := Row.name)
      (π := fun e => (e.name.map (symName (c.final fresh).symtab)).getD []) (c.final fresh)
      fun n e => by
        have hnames : symName (setMinors (c.final fresh).devs (c.final fresh).symtab).2 =
            symName (c.final fresh).symtab := funext (symName_setMinors _ _)
        simp only [row, hnames]
    rw [hcolumn, setMinors_map fun _ _ => rfl]
    have hmap := congrArg (List.map fun n : Option Nat =>
      (n.map (symName (c.final fresh).symtab)).getD []) hname
    rw [List.map_map, List.map_map] at hmap
    apply hmap.trans
    apply List.map_congr_left
    intro d hd
    exact hsym _ (mem_idents hd).1
  · have hcolumn := devtab_map (g := Row.type)
      (π := fun e => symName (c.final fresh).symtab e.tname) (c.final fresh)
      fun n e => symName_setMinors _ _ _
    rw [hcolumn, setMinors_map fun _ _ => rfl]
    have hmap := congrArg (List.map (symName (c.final fresh).symtab)) htname
    rw [List.map_map, List.map_map] at hmap
    apply hmap.trans
    apply List.map_congr_left
    intro d hd
    exact hsym _ (mem_idents hd).2
  · exact hlength
  · exact minors_final fresh h
  · exact sizes_final fresh h

/-!
## The program
-/

theorem ends_iff : Ends fresh 0 c.entries.length ↔
    ∀ k, k + 1 < c.entries.length → (fresh k).next = 0 := by
  constructor
  · intro h k hk
    exact h (k + 1) hk (Nat.zero_le _)
  · intro h k hk _
    cases k with
    | zero => rfl
    | succ k => exact h k hk

theorem tailAt_iff : tailAt fresh c.entries.length = 0 ↔
    ∀ k, k + 1 = c.entries.length → (fresh k).next = 0 := by
  cases c.entries.length with
  | zero =>
      apply iff_of_true rfl
      intro k hk
      cases hk
  | succ n =>
      constructor
      · intro h k hk
        rw [Nat.succ.inj hk]
        exact h
      · intro h
        exact h n rfl

theorem config_eq (fresh : Nat → Fresh) (h : c.Distinct) :
    config fresh c =
      if Ends fresh 0 c.entries.length ∧ Fits (c.identsRead c.select) then
        if AllFound c.select c.devices then .ok (c.final fresh, generate (c.final fresh))
        else if tailAt fresh c.entries.length = 0 then .error (.exit (c.final fresh))
        else .error .undefined
      else .error .undefined := by
  unfold config
  rw [yyparse_eq fresh h]
  split
  · split
    · rfl
    · split <;> rfl
  · rfl

end

/-- The devices are numbered by their declarations and by their types, and they are built from the
right entries, just when the file and the memory are sound. -/
theorem config_right_iff (fresh : Nat → Fresh) (c : Configuration) (h : c.Distinct) :
    Right c (config fresh c) ↔ Sound c fresh := by
  rw [config_eq fresh h]
  constructor
  · intro hright
    by_cases hread : Ends fresh 0 c.entries.length ∧ Fits (c.identsRead c.select)
    · rw [if_pos hread] at hright
      have hkept : Kept c (c.final fresh) ∧
          (¬AllFound c.entryFor c.devices → tailAt fresh c.entries.length = 0) := by
        split at hright
        · exact ⟨hright.2.1, fun hnot => absurd hright.1 hnot⟩
        · split at hright
          · rename_i htail
            exact ⟨hright.2, fun _ => htail⟩
          · exact hright.elim
      have hfirst := first_of_built hkept.1.devices
      have hagree := agree (fun _ => entryFor_of_select) fun d hd => select_eq (hfirst d hd)
      constructor
      · have hroom := hread.2
        unfold Configuration.identsRead at hroom ⊢
        rw [← hagree.1]
        exact hroom
      · exact ends_iff.mp hread.1
      · exact fun hnot => tailAt_iff.mp (hkept.2 hnot)
      · exact hfirst
    · rw [if_neg hread] at hright
      exact hright.elim
  · intro hsound
    have hselect : ∀ d ∈ c.known, c.select d = c.entryFor d :=
      fun d hd => select_eq (hsound.first d hd)
    have hagree := agree (fun _ => entryFor_of_select) hselect
    have hroom : Fits (c.identsRead c.select) := by
      unfold Configuration.identsRead
      rw [hagree.1]
      exact hsound.room
    rw [if_pos ⟨ends_iff.mpr hsound.next, hroom⟩]
    by_cases hall : AllFound c.select c.devices
    · rw [if_pos hall]
      exact ⟨hagree.2.1.mp hall, kept_final fresh hselect, numbered_final fresh hall⟩
    · have hnot : ¬AllFound c.entryFor c.devices := fun hall' => hall (hagree.2.1.mpr hall')
      rw [if_neg hall, if_pos (tailAt_iff.mpr (hsound.last hnot))]
      exact ⟨hnot, kept_final fresh hselect⟩

/-- A file with one type, on one device, and one device of it. -/
def oneDevice (type device name : Ident) (on : Option Ident) : Configuration where
  types := [{ name := type, first := { device := device, attrs := [] }, more := [] }]
  devices := [{ name := name, type := type, on := on, attrs := [] }]

theorem oneDevice_distinct (type device name : Ident) (on : Option Ident) :
    (oneDevice type device name on).Distinct := by
  constructor <;> simp [oneDevice, TypeDecl.decls]

/-- {lit}`t: on d %% x is t on d`. -/
theorem config_right_on :
    Right (oneDevice ⟨['t'], rfl⟩ ⟨['d'], rfl⟩ ⟨['x'], rfl⟩ (some ⟨['d'], rfl⟩))
        (config (fun _ => Fresh.zero)
          (oneDevice ⟨['t'], rfl⟩ ⟨['d'], rfl⟩ ⟨['x'], rfl⟩ (some ⟨['d'], rfl⟩))) ↔
      Sound (oneDevice ⟨['t'], rfl⟩ ⟨['d'], rfl⟩ ⟨['x'], rfl⟩ (some ⟨['d'], rfl⟩))
        fun _ => Fresh.zero :=
  config_right_iff _ _ (oneDevice_distinct _ _ _ _)

/-- {lit}`t: on d %% x is t`: the only entry of the type is not for the first name. -/
theorem not_config_right : ¬∀ (fresh : Nat → Fresh) (c : Configuration), c.Distinct →
    Right c (config fresh c) := by
  intro h
  have hright := h (fun _ => Fresh.zero)
    (oneDevice ⟨['t'], rfl⟩ ⟨['d'], rfl⟩ ⟨['x'], rfl⟩ none) (oneDevice_distinct _ _ _ _)
  exact hright.1 (by decide)

end Config
end BbbXinu
